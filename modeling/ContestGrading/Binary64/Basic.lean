/-!
# Binary floating-point numbers of 64 bits

A finite number is a sign and a natural number of units `2 ^ -1074`, the
smallest positive magnitude of the format, that 53 significant bits can
hold. The two zeros differ by their sign; there is one NaN.

Results:
* `units_lt`: a finite magnitude is below `2 ^ 1024`, in units.
* `le_refl_of_not_nan`, `nan_not_le`: the order is the numeric one and
  leaves NaN out.
* `ofUnits_units`: a representable magnitude is kept as it is.
-/
namespace ContestGrading

namespace Binary64

def powerOfTwo (k : Nat) : Nat := Nat.pow 2 k

/-- The number of units in one. -/
@[irreducible] def unitsPerOne : Nat := powerOfTwo 1074

/-- The overflow limit `2 ^ 1024`, in units. -/
@[irreducible] def overflowLimit : Nat := powerOfTwo 2098

/-- A magnitude that the format holds: at most 53 significant bits, below
the overflow limit. -/
def Representable (units : Nat) : Prop :=
  units < overflowLimit ∧ powerOfTwo (units.log2 - 52) ∣ units

instance (units : Nat) : Decidable (Representable units) :=
  inferInstanceAs (Decidable (_ ∧ _))

theorem representable_zero : Representable 0 := by decide +kernel

theorem representable_one : Representable unitsPerOne := by decide +kernel

end Binary64

open Binary64 in
/-- A double. -/
inductive Binary64 where
  | nan
  | infinite (negative : Bool)
  | finite (negative : Bool) (units : Nat) (representable : Representable units)
  deriving DecidableEq

namespace Binary64

/-! ## Building -/

/-- The number of that sign and magnitude; a magnitude the format does not
hold counts as overflow. -/
def ofUnits (negative : Bool) (units : Nat) : Binary64 :=
  if h : Representable units then .finite negative units h else .infinite negative

def zero : Binary64 := .finite false 0 representable_zero

def one : Binary64 := .finite false unitsPerOne representable_one

instance : Inhabited Binary64 := ⟨zero⟩

theorem ofUnits_units {negative : Bool} {units : Nat} (h : Representable units) :
    ofUnits negative units = .finite negative units h := dif_pos h

/-! ## Parts -/

def isNaN : Binary64 → Bool
  | .nan => true
  | _ => false

def isFinite : Binary64 → Bool
  | .finite .. => true
  | _ => false

/-- The sign bit; NaN has none. -/
def negative : Binary64 → Bool
  | .nan => false
  | .infinite s => s
  | .finite s .. => s

/-- The magnitude of a finite number in units; zero for the others. -/
def units : Binary64 → Nat
  | .finite _ u _ => u
  | _ => 0

/-- The value of a finite number in units; zero for the others. -/
def scaled : Binary64 → Int
  | .finite true u _ => -(u : Int)
  | .finite false u _ => u
  | _ => 0

/-- Either zero. -/
def isZero : Binary64 → Bool
  | .finite _ u _ => u == 0
  | _ => false

/-- A finite number without a fractional part. -/
def isInteger : Binary64 → Bool
  | .finite _ u _ => u % unitsPerOne == 0
  | _ => false

/-- The integer part, rounded toward zero; zero for NaN and the infinities. -/
def truncate (x : Binary64) : Int :=
  let magnitude : Int := ↑(x.units / unitsPerOne)
  if x.negative then -magnitude else magnitude

theorem units_lt (x : Binary64) : x.units < overflowLimit := by
  cases x with
  | finite s u h => exact h.1
  | nan => exact representable_zero.1
  | infinite s => exact representable_zero.1

/-! ## Sign -/

def neg : Binary64 → Binary64
  | .nan => .nan
  | .infinite s => .infinite (!s)
  | .finite s u h => .finite (!s) u h

instance : Neg Binary64 := ⟨neg⟩

def abs : Binary64 → Binary64
  | .nan => .nan
  | .infinite _ => .infinite false
  | .finite _ u h => .finite false u h

@[simp] theorem neg_neg (x : Binary64) : - -x = x := by
  cases x <;> simp [Neg.neg, neg]

/-! ## Order -/

/-- The numeric order: the zeros are equal, and nothing compares with NaN. -/
def ble : Binary64 → Binary64 → Bool
  | .nan, _ => false
  | _, .nan => false
  | .infinite true, _ => true
  | _, .infinite false => true
  | .infinite false, _ => false
  | _, .infinite true => false
  | x, y => x.scaled ≤ y.scaled

instance : LE Binary64 := ⟨fun x y => x.ble y = true⟩

/-- Strictly below: below in one direction only. -/
instance : LT Binary64 := ⟨fun x y => x ≤ y ∧ ¬ y ≤ x⟩

instance (x y : Binary64) : Decidable (x ≤ y) := inferInstanceAs (Decidable (_ = _))

instance (x y : Binary64) : Decidable (x < y) := inferInstanceAs (Decidable (_ ∧ _))

theorem le_refl_of_not_nan {x : Binary64} (h : x ≠ .nan) : x ≤ x := by
  cases x with
  | nan => exact absurd rfl h
  | infinite s => cases s <;> rfl
  | finite s u h => exact decide_eq_true (Int.le_refl _)

theorem nan_not_le (x : Binary64) : ¬ (.nan : Binary64) ≤ x := by
  simp [LE.le, ble]

/-- Equal in value: both zeros are, NaN is not even to itself. -/
def sameValue (x y : Binary64) : Bool := x ≤ y && y ≤ x

end Binary64

end ContestGrading
