import ContestGrading.Proofs.Decimal.Nearest
/-!
# The exact value of a double and the error of rounding

Rounding to the nearest double changes a quotient by at most one part in
`2 ^ 53`, if it stays above the smallest magnitudes and below the overflow.

Results:
* `Binary64.abs_value`: a double's exact value and its magnitude.
* `rounded_error`: the relative error of rounding.
-/
namespace ContestGrading

/-- The nearest integer is at most half a unit away. -/
theorem nearestEven_bounds (num : Nat) {den : Nat} (hd : 0 < den) :
    2 * (nearestEven num den * den) ≤ 2 * num + den ∧
      2 * num ≤ 2 * (nearestEven num den * den) + den := by
  have hdm := Nat.div_add_mod num den
  have hlt := Nat.mod_lt num hd
  rw [Nat.mul_comm] at hdm
  rcases nearestEven_cases num den with ⟨he, hr⟩ | ⟨he, hr⟩
  · rw [he]
    omega
  · rw [he, Nat.add_mul]
    omega

/-- The exact value of a finite double; zero for the others. -/
def Binary64.value (x : Binary64) : ℚ := x.scaled / Binary64.unitsPerOne

theorem Binary64.abs_value (x : Binary64) : |x.value| = Decimal.inOnes x.units := by
  have hscaled : |(x.scaled : ℚ)| = x.units := by
    cases x with
    | nan => simp [Binary64.scaled, Binary64.units]
    | infinite s => simp [Binary64.scaled, Binary64.units]
    | finite s u h => cases s <;> simp [Binary64.scaled, Binary64.units]
  rw [Binary64.value, abs_div, hscaled, Decimal.inOnes, abs_of_pos Decimal.unitsPerOne_cast_pos]

namespace Binary64

variable {x y : Binary64}

theorem value_of_nonneg (hx : zero ≤ x) (fx : x.isFinite = true) :
    x.value = x.magnitude / unitsPerOne := by
  obtain ⟨s, u, hu, rfl⟩ := exists_of_isFinite fx
  rw [value, scaled_of_nonneg hx, Int.cast_natCast, magnitude_finite]

theorem value_ofNat {n : Nat} (h : n ≤ 2 ^ 53) : (ofNat n).value = n := by
  rw [value_of_nonneg (zero_le_ofNat n) (isFinite_ofNat h), magnitude_ofNat_of_le h]
  exact Decimal.inOnes_mul_unitsPerOne n

theorem le_iff_value (hx : zero ≤ x) (hy : zero ≤ y) (fx : x.isFinite = true)
    (fy : y.isFinite = true) : x ≤ y ↔ x.value ≤ y.value := by
  rw [le_iff_magnitude hx hy, value_of_nonneg hx fx, value_of_nonneg hy fy]
  exact Decimal.inOnes_le_inOnes.symm

end Binary64

namespace Decimal

open Binary64 (unitsPerOne rounded spacing)

theorem inOnes_nonneg (units : Nat) : 0 ≤ inOnes units := by
  unfold inOnes
  positivity

/-- The value of a finite double is its magnitude with its sign. -/
theorem value_eq_inOnes {x : Binary64} (hx : x.isFinite = true) :
    x.value = if x.negative then -inOnes x.units else inOnes x.units := by
  obtain ⟨s, u, hu, rfl⟩ := Binary64.exists_of_isFinite hx
  cases s with
  | false => rfl
  | true =>
    simp only [Binary64.value, Binary64.scaled, Binary64.units, Binary64.negative, inOnes, if_true]
    push_cast
    rw [neg_div]

/-- The grid around a quotient has at least `2 ^ 52` steps up to it. -/
theorem spacing_le {num den : Nat} (hd : 0 < den) (h : 2 ^ 52 ≤ num / den) :
    (spacing (num / den) : ℚ) ≤ num / den / 2 ^ 52 := by
  have h0 : num / den ≠ 0 := by
    have : 0 < 2 ^ 52 := Nat.two_pow_pos 52
    omega
  have hlog : 52 ≤ (num / den).log2 := (Nat.le_log2 h0).mpr h
  have hself : 2 ^ 52 * spacing (num / den) ≤ num / den := by
    rw [Binary64.spacing_eq, ← Nat.pow_add, Nat.add_sub_cancel' hlog]
    exact Nat.log2_self_le h0
  have hd' : (0 : ℚ) < den := Nat.cast_pos.mpr hd
  have hnum : 2 ^ 52 * spacing (num / den) * den ≤ num := (Nat.le_div_iff_mul_le hd).mp hself
  rw [le_div_iff₀ (by positivity), le_div_iff₀ hd', mul_comm (spacing _ : ℚ)]
  exact_mod_cast hnum

/-- **Error.** Rounding changes a quotient by at most one part in `2 ^ 53`. -/
theorem rounded_error {num den : Nat} (hd : 0 < den) (h : 2 ^ 52 ≤ num / den)
    (hlt : rounded num den < Binary64.overflowLimit) :
    |(rounded num den : ℚ) - num / den| ≤ num / den / 2 ^ 53 := by
  have hgrid : rounded num den = nearestEven num (den * spacing (num / den)) *
      spacing (num / den) := by
    rw [rounded, ← Binary64.onGrid] at *
    omega
  have hstep : 0 < den * spacing (num / den) := Nat.mul_pos hd (Binary64.spacing_pos _)
  obtain ⟨hle, hge⟩ := nearestEven_bounds num hstep
  have hspacing := spacing_le hd h
  rw [hgrid]
  generalize nearestEven num (den * spacing (num / den)) = n at hle hge ⊢
  generalize spacing (num / den) = s at hle hge hspacing ⊢
  have hd' : (0 : ℚ) < den := Nat.cast_pos.mpr hd
  have hle : (2 : ℚ) * (n * (den * s)) ≤ 2 * num + den * s := by exact_mod_cast hle
  have hge : (2 : ℚ) * num ≤ 2 * (n * (den * s)) + den * s := by exact_mod_cast hge
  have hquot : (num : ℚ) = num / den * den := (div_mul_cancel₀ _ hd'.ne').symm
  generalize (num : ℚ) / den = q at hquot hspacing ⊢
  rw [hquot] at hle hge
  have hle : (n * s : ℚ) ≤ q + s / 2 := by
    refine le_of_mul_le_mul_right ?_ hd'
    linarith
  have hge : q ≤ n * s + s / 2 := by
    refine le_of_mul_le_mul_right ?_ hd'
    linarith
  rw [abs_le]
  push_cast
  have e : q / 2 ^ 53 = q / 2 ^ 52 / 2 := by ring
  rw [e]
  constructor <;> linarith

/-- Read as a double above the smallest magnitudes, a decimal changes by at
most one part in `2 ^ 53`. -/
theorem toBinary64_error {d : Decimal} (h : 2 ^ 53 ≤ d.toBinary64.magnitude)
    (hlt : d.toBinary64.magnitude < Binary64.overflowLimit) :
    |inOnes d.toBinary64.magnitude - d.size| ≤ d.size / 2 ^ 53 := by
  have hone := unitsPerOne_cast_pos
  rw [magnitude_toBinary64] at h hlt ⊢
  have hlarge : 2 ^ 52 ≤ d.ratio.1 * unitsPerOne / d.ratio.2 := by
    by_contra hsmall
    have hnum := (Nat.div_lt_iff_lt_mul d.ratio_pos).mp (Nat.lt_of_not_le hsmall)
    have hrep : Binary64.Representable (2 ^ 52) := by decide +kernel
    have := Binary64.rounded_le d.ratio_pos (.inl hrep) hnum.le
    omega
  have herror := rounded_error d.ratio_pos hlarge hlt
  have hquotient : ((d.ratio.1 * unitsPerOne : Nat) / d.ratio.2 : ℚ) = d.size * unitsPerOne := by
    rw [size_eq_ratio]
    push_cast
    ring
  rw [hquotient] at herror
  rw [inOnes]
  generalize (rounded (d.ratio.1 * unitsPerOne) d.ratio.2 : ℚ) = r at herror
  have e : r / unitsPerOne - d.size = (r - d.size * unitsPerOne) / unitsPerOne := by
    rw [sub_div, mul_div_cancel_right₀ _ hone.ne']
  rw [e, abs_div, abs_of_pos hone, div_le_iff₀ hone]
  refine herror.trans (le_of_eq ?_)
  ring

end Decimal

end ContestGrading
