import ContestGrading.Binary64.Arithmetic
import ContestGrading.Decimal.HalfEven
/-!
# The general notation

`generalText` writes a number with a given precision: the number rounded to
that many significant digits, positional while the exponent of the leading
digit is at least `-4` and below the precision, with an exponent of at least
two digits otherwise, and without trailing zeros.

Results:
* `generalText_zero`: both zeros are written `0`.
* `dropTrailingZeros_of_no_point`: a whole number keeps its zeros.
-/
namespace ContestGrading

namespace Decimal

/-- Drops the zeros at the end of a text with a point, and a point that
would then end it. -/
def dropTrailingZeros (t : Text) : Text :=
  if t.contains 46 then
    let rest := t.reverse.dropWhile (· == 48)
    if rest.length = t.length then t
    else
      match rest with
      | 46 :: whole => whole.reverse
      | _ => rest.reverse
  else t

theorem dropTrailingZeros_of_no_point {t : Text} (h : t.contains 46 = false) :
    dropTrailingZeros t = t := by
  rw [dropTrailingZeros, if_neg (by rw [h]; decide)]

end Decimal

namespace Binary64

open Decimal

/-- The exponent of the leading digit after rounding to `precision` digits. -/
def generalExponent (precision : Nat) (x : Binary64) : Int :=
  (x.toSignificant precision).exponent + precision - 1

/-- The number with an exponent of at least two digits. -/
def generalExponential (precision : Nat) (x : Binary64) : Text :=
  let d := x.toSignificant precision
  signText d.negative ++
    dropTrailingZeros (pointAfterFirst (padZeros precision (natText d.coefficient))) ++
    exponentText 2 (x.generalExponent precision)

/-- The number with at most `places` decimal places. -/
def generalPositional (places : Nat) (x : Binary64) : Text := dropTrailingZeros (x.fixedText places)

/-- The number with `precision` significant digits, at least one. -/
def generalText (precision : Nat) (x : Binary64) : Text :=
  if x.isZero then [48]
  else if !x.isFinite then x.toText
  else
    let exponent := x.generalExponent precision
    if exponent < -4 ∨ precision ≤ exponent then x.generalExponential precision
    else x.generalPositional (precision - 1 - exponent).toNat

/-- The general notation with an asked precision; `none` if digits are
counted out and the digits after the leading one are not 0 to 100, or the
positional form would need more than 100 places. -/
def general? (precision : Int) (x : Binary64) : Option Text :=
  if x.isZero || !x.isFinite then some (x.generalText precision.toNat)
  else if precision < 1 ∨ 101 < precision then none
  else
    let exponent := x.generalExponent precision.toNat
    if -4 ≤ exponent ∧ exponent < precision ∧ 100 < precision - 1 - exponent then none
    else some (x.generalText precision.toNat)

/-- The general notation with a precision that is any number. It is compared
as it is, and the digits are counted by its integer part. -/
def generalWith? (precision x : Binary64) : Option Text :=
  if x.isZero || !x.isFinite then some (x.generalText 1)
  else if precision.isInteger then x.general? precision.truncate
  else do
    let places ← (precision - one).digitCount?
    let exponent := x.generalExponent (places + 1)
    if exponent < -4 ∨ precision ≤ .ofInt exponent then return x.generalExponential (places + 1)
    else return x.generalPositional (← (precision - one - .ofInt exponent).digitCount?)

theorem generalText_zero (precision : Nat) {x : Binary64} (h : x.isZero = true) :
    generalText precision x = [48] := if_pos h

end Binary64

/-- The significant digits of the general notation, unless others are asked for. -/
def defaultPrecision : Nat := 6

/-- A score as the ranking shows it: two decimal places, a half to the even
digit, in the general notation. -/
def scoreText (score : Binary64) : Text := (score.roundHalfEven 2).generalText defaultPrecision

end ContestGrading
