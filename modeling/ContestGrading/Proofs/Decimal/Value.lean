import ContestGrading.Decimal.Rounding
import ContestGrading.Proofs.Binary64.Rounding
import ContestGrading.Proofs.Decimal.Digits
import Mathlib.Algebra.Order.Field.Power
import Mathlib.Algebra.Order.Field.Rat
import Mathlib.Tactic.FieldSimp
import Mathlib.Tactic.Linarith
import Mathlib.Tactic.NormNum
import Mathlib.Tactic.Positivity
import Mathlib.Tactic.Ring
/-!
# The exact values of doubles and decimals

A decimal and a finite double denote rational numbers. Here is what the
roundings to a decimal grid are in terms of these: the nearest point of the
grid, where a half goes up in magnitude.

Results:
* `isNearestUp_nearestUp`: the rounding to an integer; `IsNearestUp.mono`,
  `IsNearestUp.unique`.
* `leadingExponent_bounds`: the powers of ten around a quotient.
* `overPowerOfTen_eq`: a magnitude on a decimal grid.
-/
namespace ContestGrading.Decimal

/-- The magnitude that the number denotes. -/
def size (d : Decimal) : ℚ := d.coefficient * 10 ^ d.exponent

/-- The number itself. -/
def value (d : Decimal) : ℚ := if d.negative then -d.size else d.size

/-- The magnitude of a finite double, given in units. -/
def inOnes (units : Nat) : ℚ := units / Binary64.unitsPerOne

theorem unitsPerOne_cast_pos : (0 : ℚ) < Binary64.unitsPerOne :=
  Nat.cast_pos.mpr Binary64.unitsPerOne_pos

theorem inOnes_le_inOnes {u v : Nat} : inOnes u ≤ inOnes v ↔ u ≤ v := by
  unfold inOnes
  rw [div_le_div_iff_of_pos_right unitsPerOne_cast_pos, Nat.cast_le]

theorem inOnes_lt_inOnes {u v : Nat} : inOnes u < inOnes v ↔ u < v := by
  rw [← not_le, ← not_le, inOnes_le_inOnes]

theorem inOnes_injective {u v : Nat} (h : inOnes u = inOnes v) : u = v :=
  Nat.le_antisymm (inOnes_le_inOnes.mp h.le) (inOnes_le_inOnes.mp h.ge)

theorem inOnes_zero : inOnes 0 = 0 := by
  rw [inOnes, Nat.cast_zero, zero_div]

theorem inOnes_add (u v : Nat) : inOnes (u + v) = inOnes u + inOnes v := by
  rw [inOnes, inOnes, inOnes, Nat.cast_add, add_div]

theorem inOnes_mul_unitsPerOne (n : Nat) : inOnes (n * Binary64.unitsPerOne) = n := by
  rw [inOnes, Nat.cast_mul, mul_div_cancel_right₀ _ unitsPerOne_cast_pos.ne']

theorem size_nonneg (d : Decimal) : 0 ≤ d.size := by
  unfold size
  positivity

theorem abs_value (d : Decimal) : |d.value| = d.size := by
  rw [value]
  split
  · rw [abs_neg, abs_of_nonneg d.size_nonneg]
  · exact abs_of_nonneg d.size_nonneg

theorem value_of_size_zero {d : Decimal} (h : d.size = 0) : d.value = 0 := by
  unfold value
  split <;> simp [h]

/-! ## The nearest integer, a half up -/

/-- An integer that is at most half a unit away is as near as any other. -/
theorem distance_le_of_le_half {q : ℚ} {n : ℤ} (h : |q - n| ≤ 1 / 2) (m : ℤ) :
    |q - n| ≤ |q - m| := by
  by_cases hm : m = n
  · rw [hm]
  · have hone : (1 : ℚ) ≤ |(m : ℚ) - n| := by
      exact_mod_cast Int.one_le_abs (sub_ne_zero.mpr hm)
    have := abs_sub_le (m : ℚ) q n
    rw [abs_sub_comm (m : ℚ) q] at this
    linarith

/-- `n` is the integer nearest to `q`, the greater one of two. -/
def IsNearestUp (q : ℚ) (n : Nat) : Prop := (n : ℚ) - 1 / 2 ≤ q ∧ q < n + 1 / 2

theorem isNearestUp_nearestUp (num : Nat) {den : Nat} (hd : 0 < den) :
    IsNearestUp (num / den) (nearestUp num den) := by
  obtain ⟨hle, hlt⟩ := nearestUp_bounds num hd
  have hd' : (0 : ℚ) < den := Nat.cast_pos.mpr hd
  have hle' : (2 : ℚ) * (nearestUp num den * den) ≤ 2 * num + den := by exact_mod_cast hle
  have hlt' : (2 : ℚ) * num < 2 * (nearestUp num den * den) + den := by exact_mod_cast hlt
  constructor
  · rw [le_div_iff₀ hd']
    linarith
  · rw [div_lt_iff₀ hd']
    linarith

namespace IsNearestUp

variable {q r : ℚ} {m n : Nat}

theorem mono (hq : IsNearestUp q m) (hr : IsNearestUp r n) (h : q ≤ r) : m ≤ n := by
  have : (m : ℚ) < n + 1 := by linarith [hq.1, hr.2]
  exact Nat.lt_succ_iff.mp (by exact_mod_cast this)

theorem unique (hm : IsNearestUp q m) (hn : IsNearestUp q n) : m = n :=
  Nat.le_antisymm (hm.mono hn le_rfl) (hn.mono hm le_rfl)

theorem of_nat (n : Nat) : IsNearestUp n n := ⟨by linarith, by linarith⟩

theorem le_of_le (hq : IsNearestUp q m) (h : q ≤ n) : m ≤ n := hq.mono (of_nat n) h

theorem ge_of_ge (hq : IsNearestUp q m) (h : (n : ℚ) ≤ q) : n ≤ m := (of_nat n).mono hq h

end IsNearestUp

/-! ## Decimal grids -/

/-- The leading digit of a quotient stands at the power of ten below it. -/
theorem leadingExponent_bounds {num den : Nat} (hn : 0 < num) (hd : 0 < den) :
    (10 : ℚ) ^ Binary64.leadingExponent num den ≤ num / den ∧
      (num / den : ℚ) < 10 ^ (Binary64.leadingExponent num den + 1) := by
  have hn' : (0 : ℚ) < num := Nat.cast_pos.mpr hn
  have hd' : (0 : ℚ) < den := Nat.cast_pos.mpr hd
  unfold Binary64.leadingExponent
  split
  next h =>
    have hq : 0 < num / den := Nat.div_pos h hd
    have hle := pow_le_of_digitCount hq
    have hlt := lt_pow_digitCount (num / den)
    have hpos := digitCount_pos (num / den)
    generalize digitCount (num / den) = k at hle hlt hpos
    obtain ⟨k, rfl⟩ : ∃ j, k = j + 1 := ⟨k - 1, by omega⟩
    have hle' : 10 ^ k * den ≤ num := (Nat.le_div_iff_mul_le hd).mp hle
    have hlt' : num < 10 ^ (k + 1) * den := (Nat.div_lt_iff_lt_mul hd).mp hlt
    have e1 : ((k + 1 : Nat) : Int) - 1 = k := by omega
    have e2 : ((k + 1 : Nat) : Int) - 1 + 1 = (k + 1 : Nat) := by omega
    rw [e2, e1, zpow_natCast, zpow_natCast]
    constructor
    · rw [le_div_iff₀ hd']
      exact_mod_cast hle'
    · rw [div_lt_iff₀ hd']
      exact_mod_cast hlt'
  next h =>
    have hq : 0 < (den - 1) / num := Nat.div_pos (by omega) hn
    have hle := pow_le_of_digitCount hq
    have hlt := lt_pow_digitCount ((den - 1) / num)
    have hpos := digitCount_pos ((den - 1) / num)
    generalize digitCount ((den - 1) / num) = k at hle hlt hpos
    obtain ⟨k, rfl⟩ : ∃ j, k = j + 1 := ⟨k - 1, by omega⟩
    have hle' : 10 ^ k * num < den := by
      have := (Nat.le_div_iff_mul_le hn).mp hle
      rw [Nat.add_sub_cancel] at this
      omega
    have hlt' : den ≤ 10 ^ (k + 1) * num := by
      have := (Nat.div_lt_iff_lt_mul hn).mp hlt
      omega
    have e : -((k + 1 : Nat) : Int) + 1 = -(k : Nat) := by omega
    rw [e, zpow_neg, zpow_neg, zpow_natCast, zpow_natCast]
    constructor
    · rw [le_div_iff₀ hd', inv_mul_le_iff₀ (by positivity)]
      exact_mod_cast hlt'
    · rw [div_lt_iff₀ hd', lt_inv_mul_iff₀ (by positivity)]
      exact_mod_cast hle'

theorem overPowerOfTen_pos (units : Nat) (k : Int) :
    0 < (Binary64.overPowerOfTen units k).2 := by
  cases k with
  | ofNat k => exact Nat.mul_pos Binary64.unitsPerOne_pos (Nat.pow_pos (by decide))
  | negSucc k => exact Binary64.unitsPerOne_pos

/-- A magnitude in units of a power of ten. -/
theorem overPowerOfTen_eq (units : Nat) (k : Int) :
    ((Binary64.overPowerOfTen units k).1 / (Binary64.overPowerOfTen units k).2 : ℚ) =
      inOnes units / 10 ^ k := by
  cases k with
  | ofNat k =>
    simp only [Binary64.overPowerOfTen, powerOfTen_eq, inOnes, Int.ofNat_eq_natCast, zpow_natCast]
    push_cast
    rw [div_div]
  | negSucc k =>
    simp only [Binary64.overPowerOfTen, powerOfTen_eq, inOnes, zpow_negSucc]
    push_cast
    rw [div_inv_eq_mul, div_mul_eq_mul_div]

end ContestGrading.Decimal
