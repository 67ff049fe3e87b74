import ContestGrading.Binary64.Basic
/-!
# Rounding to the nearest double

`ofRatio` rounds an exact quotient of units once: to the nearest multiple
of the spacing around it, a half to the even multiple, and to an infinity
from the overflow limit on. Every operation of the arithmetic and every
numeral read goes through it.

Results:
* `nearestEven_eq_of_dvd`: an integral quotient is its own rounding.
* `ofRatio_representable`: a magnitude the format holds is kept.
-/
namespace ContestGrading

/-- The integer nearest to `num / den`; of two nearest the even one. -/
def nearestEven (num den : Nat) : Nat :=
  let q := num / den
  let r := num % den
  if 2 * r < den ∨ (2 * r = den ∧ q % 2 = 0) then q else q + 1

theorem nearestEven_eq_of_dvd {num den : Nat} (hd : 0 < den) (h : den ∣ num) :
    nearestEven num den = num / den := by
  have hr : num % den = 0 := Nat.mod_eq_zero_of_dvd h
  simp [nearestEven, hr, hd]

namespace Binary64

/-- The distance between the format's neighbouring magnitudes at `units`. -/
def spacing (units : Nat) : Nat := powerOfTwo (units.log2 - 52)

theorem spacing_pos (units : Nat) : 0 < spacing units := Nat.two_pow_pos _

/-- The double nearest to `num / den` units, with the given sign. -/
def ofRatio (negative : Bool) (num den : Nat) : Binary64 :=
  let step := spacing (num / den)
  ofUnits negative (nearestEven num (den * step) * step)

theorem ofRatio_representable {negative : Bool} {units : Nat} (h : Representable units) :
    ofRatio negative units 1 = .finite negative units h := by
  have hd : spacing units ∣ units := h.2
  have : nearestEven units (1 * spacing units) * spacing units = units := by
    rw [Nat.one_mul, nearestEven_eq_of_dvd (spacing_pos units) hd, Nat.div_mul_cancel hd]
  simp only [ofRatio, Nat.div_one, this, ofUnits_units h]

/-- The double nearest to a natural number. -/
def ofNat (n : Nat) : Binary64 := ofRatio false (n * unitsPerOne) 1

/-- The double nearest to an integer. -/
def ofInt (n : Int) : Binary64 := ofRatio (n < 0) (n.natAbs * unitsPerOne) 1

instance (n : Nat) : OfNat Binary64 n := ⟨ofNat n⟩

end Binary64

end ContestGrading
