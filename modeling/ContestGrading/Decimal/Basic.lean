import ContestGrading.Binary64.Rounding
import ContestGrading.Decimal.Digits
/-!
# Decimal numbers

A decimal number is a sign, a coefficient and a power of ten. `toBinary64`
gives the double nearest to it; far outside the range of the format it
answers without forming the power.

Results:
* `toBinary64_zero`: a zero coefficient gives a zero of that sign.
* `normalize_of_not_dvd`: a coefficient without trailing zeros is kept.
-/
namespace ContestGrading

/-- The number `coefficient · 10 ^ exponent`, negated if `negative`. -/
structure Decimal where
  negative : Bool
  coefficient : Nat
  exponent : Int
  deriving DecidableEq

namespace Decimal

/-- The double nearest to the number. The value lies between the powers of
ten `magnitude - 1` and `magnitude`; from `10 ^ 310` on it overflows, and
below `10 ^ -330` it is less than half the smallest double. -/
def toBinary64 (d : Decimal) : Binary64 :=
  let magnitude : Int := digitCount d.coefficient + d.exponent
  if d.coefficient = 0 ∨ magnitude < -330 then
    .finite d.negative 0 Binary64.representable_zero
  else if 310 < magnitude then .infinite d.negative
  else
    match d.exponent with
    | .ofNat e => .ofRatio d.negative (d.coefficient * powerOfTen e * Binary64.unitsPerOne) 1
    | .negSucc e => .ofRatio d.negative (d.coefficient * Binary64.unitsPerOne) (powerOfTen (e + 1))

theorem toBinary64_zero (negative : Bool) (exponent : Int) :
    toBinary64 ⟨negative, 0, exponent⟩ = .finite negative 0 Binary64.representable_zero := by
  simp [toBinary64]

/-- The same number without trailing zeros in its coefficient. -/
def normalize (d : Decimal) : Decimal :=
  if h : 0 < d.coefficient ∧ 10 ∣ d.coefficient then
    normalize ⟨d.negative, d.coefficient / 10, d.exponent + 1⟩
  else d
termination_by d.coefficient
decreasing_by exact Nat.div_lt_self h.1 (by decide)

theorem normalize_of_not_dvd {d : Decimal} (h : ¬ 10 ∣ d.coefficient) : normalize d = d := by
  rw [normalize, dif_neg (fun hd => h hd.2)]

end Decimal

end ContestGrading
