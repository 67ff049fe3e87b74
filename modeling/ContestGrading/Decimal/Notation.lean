import ContestGrading.Decimal.Shortest
/-!
# Written numbers

Three notations of a double. `toText` is the plain one: the shortest digits
that read back, positional from `1e-6` up to `1e21` and with an exponent
outside. `fixedText` has a given number of decimal places, and
`exponentialText` a given number of digits after the leading one; both
leave what they do not cover to the plain notation.

Results:
* `toText_zero`: both zeros are written `0`.
* `fixedText_nan`, `exponentialText_nan`: NaN has one text in each.
-/
namespace ContestGrading

namespace Decimal

def zeros (count : Nat) : Text := List.replicate count 48

/-- `t` with leading zeros up to `width`. -/
def padZeros (width : Nat) (t : Text) : Text := zeros (width - t.length) ++ t

def minus : Text := [45]

/-- The sign of a negative number. -/
def signText (negative : Bool) : Text := if negative then minus else []

/-- `e`, the sign and at least `width` digits of an exponent. -/
def exponentText (width : Nat) (exponent : Int) : Text :=
  [101, if exponent < 0 then 45 else 43] ++ padZeros width (natText exponent.natAbs)

/-- The digits with a point after the first, if others follow. -/
def pointAfterFirst : Text → Text
  | d :: e :: rest => d :: 46 :: e :: rest
  | ds => ds

/-- The digits with the point after `point` of them, zeros filled in. -/
def positional (ds : Text) (point : Int) : Text :=
  if point ≤ 0 then [48, 46] ++ zeros point.natAbs ++ ds
  else if ds.length ≤ point then ds ++ zeros (point.natAbs - ds.length)
  else ds.take point.natAbs ++ 46 :: ds.drop point.natAbs

/-- The digits of the coefficient and the places below the point. -/
def fixedNotation (d : Decimal) (places : Nat) : Text :=
  let ds := padZeros (places + 1) (natText d.coefficient)
  let whole := ds.length - places
  signText d.negative ++
    if places = 0 then ds else ds.take whole ++ 46 :: ds.drop whole

/-- The coefficient as `count` digits with the point after the first, and
the exponent of that digit. -/
def scientificNotation (d : Decimal) (count : Nat) (exponentWidth : Nat) : Text :=
  let ds := padZeros count (natText d.coefficient)
  signText d.negative ++ pointAfterFirst ds ++
    exponentText exponentWidth (d.exponent + ds.length - 1)

end Decimal

namespace Binary64

open Decimal

/-- The plain notation of a nonzero finite number. -/
def finiteText (x : Binary64) : Text :=
  let d := x.shortest
  let ds := natText d.coefficient
  let point := d.exponent + ds.length
  if -6 < point ∧ point ≤ 21 then signText d.negative ++ positional ds point
  else d.scientificNotation ds.length 1

/-- The plain notation. -/
def toText : Binary64 → Text
  | .nan => "NaN"
  | .infinite negative => signText negative ++ ("Infinity" : Text)
  | x@(.finite ..) => if x.isZero then [48] else x.finiteText

/-- From `1e21` on a number is written plainly where places are asked for. -/
def exceedsFixed (x : Binary64) : Bool := !x.isFinite || powerOfTen 21 * unitsPerOne ≤ x.units

/-- The number rounded to `places` decimal places, with all of them. -/
def fixedText (places : Nat) (x : Binary64) : Text :=
  if x.exceedsFixed then x.toText else (x.toFixed places).fixedNotation places

/-- The number rounded to `places` digits after the leading one. -/
def exponentialText (places : Nat) (x : Binary64) : Text :=
  if x.isFinite then (x.toSignificant (places + 1)).scientificNotation (places + 1) 1
  else x.toText

/-- As many digits as it takes to read back, with an exponent. -/
def shortestExponentialText (x : Binary64) : Text :=
  if !x.isFinite then x.toText
  else if x.isZero then scientificNotation ⟨false, 0, 0⟩ 1 1
  else x.shortest.scientificNotation 1 1

theorem toText_zero (negative : Bool) :
    toText (.finite negative 0 representable_zero) = [48] := rfl

theorem fixedText_nan (places : Nat) : fixedText places .nan = ("NaN" : Text) := rfl

theorem exponentialText_nan (places : Nat) :
    exponentialText places .nan = ("NaN" : Text) := rfl

end Binary64

end ContestGrading
