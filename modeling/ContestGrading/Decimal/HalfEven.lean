import ContestGrading.Decimal.Notation
/-!
# Rounding an exact half to the even digit

`roundHalfEven` rounds to a number of decimal places. A half is judged on
the exact decimal expansion of the double, up to the hundredth place, and
goes to the neighbour with the even last digit: `0.125` to `0.12`, `0.375`
to `0.38`. Without places there is no last digit after the point, and a half
goes away from zero. Infinities, NaN and numbers from `1e21` on are left as
they are.

Results:
* `roundHalfEven_of_exceedsFixed`: what is left as it is.
* `halfEven?_eq_some_iff`: the admitted numbers of places.
* `roundTo?_of_isInteger`: whole numbers of places are rounded half to even.
-/
namespace ContestGrading.Binary64

open Decimal (powerOfTen)

/-- The number of places up to which a half is judged. -/
def expansionPlaces : Nat := 100

/-- The magnitude on the finest grid, `10 ^ -100`. -/
def expansion (x : Binary64) : Nat :=
  nearestUp (x.units * powerOfTen expansionPlaces) unitsPerOne

/-- The expansion is a five and zeros after the first `places` places. -/
def isHalfAt (places : Nat) (x : Binary64) : Prop :=
  places < expansionPlaces ∧
    x.expansion % powerOfTen (expansionPlaces - places) =
      5 * powerOfTen (expansionPlaces - places - 1)

instance (places : Nat) (x : Binary64) : Decidable (isHalfAt places x) :=
  inferInstanceAs (Decidable (_ ∧ _))

/-- The magnitude cut after `places` places, in units of the last. -/
def kept (places : Nat) (x : Binary64) : Nat := x.expansion / powerOfTen (expansionPlaces - places)

/-- The number rounded to `places` decimal places. -/
def roundHalfEven (places : Nat) (x : Binary64) : Binary64 :=
  if x.exceedsFixed then x
  else if x.isHalfAt places ∧ 0 < places ∧ x.kept places % 2 = 0 then
    Decimal.toBinary64 ⟨x.negative, x.kept places, -places⟩
  else (x.toFixed places).toBinary64

/-- Rounding to an asked number of places; `none` if a rounding takes place
and the number is not one of 0 to 100. -/
def halfEven? (places : Int) (x : Binary64) : Option Binary64 :=
  if x.exceedsFixed then some x
  else if 0 ≤ places ∧ places ≤ 100 then some (x.roundHalfEven places.toNat)
  else none

/-- Rounding to a number of places that is any number. Only a whole number
names a place to judge a half by; of another the integer part counts, and a
half goes away from zero. -/
def roundTo? (places x : Binary64) : Option Binary64 :=
  if x.exceedsFixed then some x
  else if places.isInteger then x.halfEven? places.truncate
  else places.digitCount?.map fun n => (x.toFixed n).toBinary64

theorem roundTo?_of_isInteger {places : Binary64} (h : places.isInteger = true) (x : Binary64) :
    roundTo? places x = x.halfEven? places.truncate := by
  unfold roundTo?
  by_cases hx : x.exceedsFixed = true
  · rw [if_pos hx, halfEven?, if_pos hx]
  · rw [if_neg hx, if_pos h]

theorem roundHalfEven_of_exceedsFixed {x : Binary64} (h : x.exceedsFixed = true) (places : Nat) :
    x.roundHalfEven places = x := if_pos h

theorem halfEven?_eq_some_iff {places : Int} {x : Binary64} :
    (∃ y, halfEven? places x = some y) ↔ x.exceedsFixed = true ∨ (0 ≤ places ∧ places ≤ 100) := by
  unfold halfEven?
  split
  next h => simp [h]
  next h =>
    split
    next hp => simp [hp]
    next hp => simp [h, hp]

end ContestGrading.Binary64
