import ContestGrading.Decimal.Rounding
/-!
# The shortest decimal that reads back

For one digit, two digits and so on, the two neighbours of the number on
that decimal grid are read back; the first grid with a hit wins, of two
hits the nearer, and on an exact half the even one. Seventeen digits always
suffice for a double.

Results:
* `readsBack_of_shortestOn?`: a hit on a grid reads back as the number.
-/
namespace ContestGrading.Binary64

/-- `d` is read as the double `x`. -/
def readsBack (x : Binary64) (d : Decimal) : Bool := decide (d.toBinary64 = x)

/-- The better of the two neighbours with `count` digits that read back. -/
def shortestOn? (x : Binary64) (count : Nat) : Option Decimal :=
  let exponent := x.decimalExponent + 1 - count
  let quotient := overPowerOfTen x.units exponent
  let lower : Decimal := ⟨x.negative, quotient.1 / quotient.2, exponent⟩
  let upper : Decimal := ⟨x.negative, quotient.1 / quotient.2 + 1, exponent⟩
  let twice := 2 * (quotient.1 % quotient.2)
  match readsBack x lower, readsBack x upper with
  | true, true =>
    if twice < quotient.2 ∨ (twice = quotient.2 ∧ lower.coefficient % 2 = 0) then some lower
    else some upper
  | true, false => some lower
  | false, true => some upper
  | false, false => none

/-- The shortest decimal that reads back as a nonzero finite number. -/
def shortest (x : Binary64) : Decimal :=
  (((List.range 17).findSome? fun i => shortestOn? x (i + 1)).getD (toSignificant 17 x)).normalize

theorem readsBack_of_shortestOn? {x : Binary64} {count : Nat} {d : Decimal}
    (h : shortestOn? x count = some d) : readsBack x d = true := by
  simp only [shortestOn?] at h
  split at h
  next hl hu => split at h <;> simp only [Option.some.injEq] at h <;> subst h <;> assumption
  next hl hu => simp only [Option.some.injEq] at h; subst h; exact hl
  next hl hu => simp only [Option.some.injEq] at h; subst h; exact hu
  next => simp at h

end ContestGrading.Binary64
