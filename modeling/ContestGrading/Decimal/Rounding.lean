import ContestGrading.Decimal.Basic
/-!
# Doubles on a decimal grid

A double is an exact quotient, so its neighbours on a decimal grid and the
distances to them are exact too. `toFixed` rounds to a number of places
after the point, `toSignificant` to a number of significant digits; in both
a half goes away from zero.

Results:
* `nearestUp_bounds`: the rounding is within half a unit, upward on a half.
* `digitCount?_le`: no more than a hundred digits are counted.
* `toFixed_exponent`: a fixed rounding lies on its grid.
-/
namespace ContestGrading

/-- The integer nearest to `num / den`; a half goes up. -/
def nearestUp (num den : Nat) : Nat := (2 * num + den) / (2 * den)

theorem nearestUp_bounds (num : Nat) {den : Nat} (hd : 0 < den) :
    2 * (nearestUp num den * den) ≤ 2 * num + den ∧
      2 * num < 2 * (nearestUp num den * den) + den := by
  have h1 := Nat.div_mul_le_self (2 * num + den) (2 * den)
  have h2 := Nat.lt_div_mul_add (a := 2 * num + den) (b := 2 * den) (by omega)
  have e : nearestUp num den * (2 * den) = 2 * (nearestUp num den * den) := by
    rw [Nat.mul_left_comm]
  unfold nearestUp at e ⊢
  omega

namespace Binary64

open Decimal (powerOfTen)

/-- The quotient of a magnitude by `10 ^ k`, as numerator and denominator. -/
def overPowerOfTen (units : Nat) : Int → Nat × Nat
  | .ofNat k => (units, unitsPerOne * powerOfTen k)
  | .negSucc k => (units * powerOfTen (k + 1), unitsPerOne)

/-- The exponent of the leading decimal digit of `num / den`. -/
def leadingExponent (num den : Nat) : Int :=
  if den ≤ num then Decimal.digitCount (num / den) - 1
  else -Decimal.digitCount ((den - 1) / num)

/-- The exponent of the leading decimal digit of a nonzero number. -/
def decimalExponent (x : Binary64) : Int := leadingExponent x.units unitsPerOne

/-- The number rounded to `places` decimal places, a half away from zero;
a zero has no sign, a negative number keeps its own. -/
def toFixed (places : Nat) (x : Binary64) : Decimal :=
  ⟨x.negative && !x.isZero, nearestUp (x.units * powerOfTen places) unitsPerOne, -places⟩

/-- The number rounded to `precision` significant digits, a half away from
zero; the coefficient has exactly that many digits unless it is zero. -/
def toSignificant (precision : Nat) (x : Binary64) : Decimal :=
  if x.isZero then ⟨false, 0, 1 - precision⟩
  else
    let exponent := x.decimalExponent + 1 - precision
    let quotient := overPowerOfTen x.units exponent
    let coefficient := nearestUp quotient.1 quotient.2
    if coefficient = powerOfTen precision then
      ⟨x.negative, powerOfTen (precision - 1), exponent + 1⟩
    else ⟨x.negative, coefficient, exponent⟩

/-- The count of digits that a number asks for: its integer part, none for
NaN. There are at most a hundred. -/
def digitCount? (x : Binary64) : Option Nat :=
  if x.isFinite || x.isNaN then
    if 0 ≤ x.truncate ∧ x.truncate ≤ 100 then some x.truncate.toNat else none
  else none

theorem digitCount?_le {x : Binary64} {n : Nat} (h : x.digitCount? = some n) : n ≤ 100 := by
  unfold digitCount? at h
  split at h
  · split at h
    · cases h; omega
    · cases h
  · cases h

theorem toFixed_exponent (places : Nat) (x : Binary64) :
    (toFixed places x).exponent = -places := rfl

end Binary64

end ContestGrading
