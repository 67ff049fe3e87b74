import ContestGrading.Decimal.HalfEven
import ContestGrading.Proofs.Decimal.Nearest
import ContestGrading.Proofs.Decimal.Rounding
/-!
# Rounding half to even keeps the order

Rounding to a number of places reads a decimal back whose coefficient is the
nearest one, or the even one of two where the expansion shows a half. Two
numbers with the same half in their expansion get the same coefficient; with
that the coefficient never decreases, and the cut-off from which on numbers
are left as they are lies above all that is rounded.

Results:
* `roundHalfEven_eq`: the decimal that is read back.
* `evenCoefficient_mono`: its coefficient keeps the order.
* `magnitude_roundHalfEven_mono`, `roundHalfEven_le`: so does the rounding.
-/
namespace ContestGrading.Decimal

open Binary64 (unitsPerOne overflowLimit)

variable {x y : Binary64} {places : Nat}

/-- The coefficient of the rounding, a half to the even one. -/
def evenCoefficient (places : Nat) (x : Binary64) : Nat :=
  if x.isHalfAt places ∧ 0 < places ∧ x.kept places % 2 = 0 then x.kept places
  else (x.toFixed places).coefficient

theorem expansion_nearest (x : Binary64) :
    IsNearestUp (inOnes x.units * 10 ^ Binary64.expansionPlaces) x.expansion :=
  toFixed_nearest Binary64.expansionPlaces x

/-- A half is not at zero. -/
theorem isZero_of_isHalfAt (h : x.isHalfAt places) : x.isZero = false := by
  apply isZero_of_units_pos
  apply Nat.pos_of_ne_zero
  intro h0
  have hexp : x.expansion = 0 := by
    have hnear := expansion_nearest x
    rw [h0] at hnear
    exact Nat.le_zero.mp (hnear.le_of_le (by simp [inOnes]))
  have h := h.2
  rw [hexp, Nat.zero_mod, powerOfTen_eq] at h
  have : 0 < 10 ^ (Binary64.expansionPlaces - places - 1) := Nat.pow_pos (by decide)
  omega

theorem roundHalfEven_eq (hx : x.exceedsFixed = false) (places : Nat) :
    x.roundHalfEven places =
      toBinary64 ⟨(x.toFixed places).negative, evenCoefficient places x, -places⟩ := by
  rw [Binary64.roundHalfEven, if_neg (by simp [hx]), evenCoefficient]
  split
  next h => simp [Binary64.toFixed, isZero_of_isHalfAt h.1]
  next => rfl

theorem negative_roundHalfEven (hx : x.exceedsFixed = false) (places : Nat) :
    (x.roundHalfEven places).negative = (x.negative && !x.isZero) := by
  rw [roundHalfEven_eq hx, negative_toBinary64]
  rfl

/-- The expansion at a half, in units of half a place. -/
theorem expansion_of_isHalfAt (h : x.isHalfAt places) :
    ∃ k, 10 ^ Binary64.expansionPlaces = 10 ^ places * (10 * 10 ^ k) ∧
      x.expansion = x.kept places * (10 * 10 ^ k) + 5 * 10 ^ k := by
  obtain ⟨hlt, hmod⟩ := h
  obtain ⟨k, hk⟩ : ∃ k, Binary64.expansionPlaces - places = k + 1 :=
    ⟨Binary64.expansionPlaces - places - 1, by omega⟩
  rw [hk, Nat.add_sub_cancel, powerOfTen_eq, powerOfTen_eq, Nat.pow_succ, Nat.mul_comm] at hmod
  refine ⟨k, ?_, ?_⟩
  · rw [show Binary64.expansionPlaces = places + (k + 1) by omega, Nat.pow_add, Nat.pow_succ,
      Nat.mul_comm 10]
  · have := Nat.div_add_mod x.expansion (10 * 10 ^ k)
    rw [Binary64.kept, hk, powerOfTen_eq, Nat.pow_succ, Nat.mul_comm (10 ^ k)]
    rw [Nat.mul_comm]
    omega

/-- What is kept at a half is at most the nearest. -/
theorem evenCoefficient_le (places : Nat) (x : Binary64) :
    evenCoefficient places x ≤ (x.toFixed places).coefficient := by
  unfold evenCoefficient
  split
  next h =>
    obtain ⟨k, hplaces, hexp⟩ := expansion_of_isHalfAt h.1
    refine (toFixed_nearest places x).ge_of_ge ?_
    have hge := (expansion_nearest x).1
    have hpow : (1 : ℚ) ≤ 10 ^ k := one_le_pow₀ (by norm_num)
    have hplaces : (10 : ℚ) ^ Binary64.expansionPlaces = 10 ^ places * (10 * 10 ^ k) := by
      exact_mod_cast hplaces
    have hpos : (0 : ℚ) < 10 * 10 ^ k := by positivity
    rw [hexp, hplaces, ← mul_assoc] at hge
    push_cast at hge
    refine le_of_mul_le_mul_right ?_ hpos
    linarith
  next => exact Nat.le_refl _

/-- Past a half, the expansion is at least that of the half. -/
theorem expansion_le_of_lt (h : x.isHalfAt places)
    (hlt : x.kept places < (y.toFixed places).coefficient) :
    (x.expansion : ℚ) ≤ inOnes y.units * 10 ^ Binary64.expansionPlaces := by
  obtain ⟨k, hplaces, hexp⟩ := expansion_of_isHalfAt h
  have hge := (toFixed_nearest places y).1
  have hlt : (x.kept places : ℚ) + 1 ≤ (y.toFixed places).coefficient := by exact_mod_cast hlt
  have hplaces : (10 : ℚ) ^ Binary64.expansionPlaces = 10 ^ places * (10 * 10 ^ k) := by
    exact_mod_cast hplaces
  have hpos : (0 : ℚ) < 10 * 10 ^ k := by positivity
  rw [hexp, hplaces, ← mul_assoc]
  push_cast
  have : ((x.kept places : ℚ) + 1 / 2) * (10 * 10 ^ k) ≤
      inOnes y.units * 10 ^ places * (10 * 10 ^ k) := by
    gcongr
    linarith
  linarith

/-- The coefficient of the rounding keeps the order. -/
theorem evenCoefficient_mono (h : x.units ≤ y.units) (places : Nat) :
    evenCoefficient places x ≤ evenCoefficient places y := by
  have hmono := inOnes_le_inOnes.mpr h
  have hcoefficient : (x.toFixed places).coefficient ≤ (y.toFixed places).coefficient := by
    refine (toFixed_nearest places x).mono (toFixed_nearest places y) ?_
    gcongr
  by_cases hy : y.isHalfAt places ∧ 0 < places ∧ y.kept places % 2 = 0
  · have hkept : evenCoefficient places y = y.kept places := if_pos hy
    rw [hkept]
    rcases Nat.lt_or_ge (y.kept places) (x.toFixed places).coefficient with hlt | hle
    · -- between the half and the greater number nothing is told apart
      have hexp : x.expansion = y.expansion := by
        refine Nat.le_antisymm ?_ ?_
        · refine (expansion_nearest x).mono (expansion_nearest y) ?_
          gcongr
        · exact (expansion_nearest x).ge_of_ge (expansion_le_of_lt hy.1 hlt)
      have hkept : x.kept places = y.kept places := by rw [Binary64.kept, hexp, ← Binary64.kept]
      have hx : x.isHalfAt places ∧ 0 < places ∧ x.kept places % 2 = 0 := by
        rw [hkept, Binary64.isHalfAt, hexp]
        exact hy
      rw [evenCoefficient, if_pos hx, hkept]
    · exact Nat.le_trans (evenCoefficient_le places x) hle
  · have hkept : evenCoefficient places y = (y.toFixed places).coefficient := if_neg hy
    rw [hkept]
    exact Nat.le_trans (evenCoefficient_le places x) hcoefficient

/-! ## Across the cut-off -/

theorem units_eq_magnitude (hx : x.isFinite = true) : x.units = x.magnitude := by
  obtain ⟨s, u, h, rfl⟩ := Binary64.exists_of_isFinite hx
  rfl

theorem exceedsFixed_eq_false_iff :
    x.exceedsFixed = false ↔ x.isFinite = true ∧ x.units < 10 ^ 21 * unitsPerOne := by
  rw [Binary64.exceedsFixed, powerOfTen_eq]
  simp

theorem representable_cutOff : Binary64.Representable (10 ^ 21 * unitsPerOne) := by
  decide +kernel

/-- Numbers that are left as they are are not below the cut-off. -/
theorem le_magnitude_of_exceedsFixed (hn : x ≠ .nan) (h : x.exceedsFixed = true) :
    10 ^ 21 * unitsPerOne ≤ x.magnitude := by
  cases x with
  | nan => exact absurd rfl hn
  | infinite s => exact Nat.le_of_lt representable_cutOff.1
  | finite s u hu =>
    simp only [Binary64.exceedsFixed, Binary64.isFinite, Bool.not_true, Bool.false_or] at h
    exact of_decide_eq_true h

/-- What is rounded ends up at most at the cut-off. -/
theorem magnitude_roundHalfEven_le (hx : x.exceedsFixed = false) (places : Nat) :
    (x.roundHalfEven places).magnitude ≤ 10 ^ 21 * unitsPerOne := by
  have hcut : size ⟨false, 10 ^ 21, 0⟩ = inOnes (10 ^ 21 * unitsPerOne) := by
    have := unitsPerOne_cast_pos.ne'
    rw [size, inOnes, zpow_zero, mul_one, Nat.cast_mul, mul_div_cancel_right₀ _ this]
  rw [roundHalfEven_eq hx, ← magnitude_toBinary64_of_size representable_cutOff hcut]
  refine magnitude_toBinary64_mono ?_
  rw [hcut]
  have hunits := (exceedsFixed_eq_false_iff.mp hx).2
  have hcoefficient : evenCoefficient places x ≤ 10 ^ 21 * 10 ^ places := by
    refine Nat.le_trans (evenCoefficient_le places x)
      ((toFixed_nearest places x).le_of_le ?_)
    have : inOnes x.units ≤ 10 ^ 21 := by
      rw [inOnes, div_le_iff₀ unitsPerOne_cast_pos]
      exact_mod_cast hunits.le
    push_cast
    gcongr
    linarith
  have hcoefficient : (evenCoefficient places x : ℚ) ≤ 10 ^ 21 * 10 ^ places := by
    exact_mod_cast hcoefficient
  rw [← hcut, size, size, zpow_neg, zpow_natCast, zpow_zero, mul_one,
    mul_inv_le_iff₀ (by positivity)]
  exact_mod_cast hcoefficient

/-- A greater magnitude is never rounded to a lesser one. -/
theorem magnitude_roundHalfEven_mono (hx : x ≠ .nan) (hy : y ≠ .nan)
    (h : x.magnitude ≤ y.magnitude) (places : Nat) :
    (x.roundHalfEven places).magnitude ≤ (y.roundHalfEven places).magnitude := by
  cases hey : y.exceedsFixed with
  | true =>
    rw [Binary64.roundHalfEven_of_exceedsFixed hey]
    cases hex : x.exceedsFixed with
    | true => rwa [Binary64.roundHalfEven_of_exceedsFixed hex]
    | false =>
      exact Nat.le_trans (magnitude_roundHalfEven_le hex places)
        (le_magnitude_of_exceedsFixed hy hey)
  | false =>
    have hyu := exceedsFixed_eq_false_iff.mp hey
    have hex : x.exceedsFixed = false := by
      rw [← Bool.not_eq_true]
      intro hex
      have := le_magnitude_of_exceedsFixed hx hex
      have := units_eq_magnitude hyu.1
      omega
    have hxu := exceedsFixed_eq_false_iff.mp hex
    rw [roundHalfEven_eq hex, roundHalfEven_eq hey]
    refine magnitude_toBinary64_mono ?_
    have hunits : x.units ≤ y.units := by
      rwa [units_eq_magnitude hxu.1, units_eq_magnitude hyu.1]
    have := evenCoefficient_mono hunits places
    unfold size
    dsimp only
    gcongr

end ContestGrading.Decimal

namespace ContestGrading.Binary64

theorem roundHalfEven_nonneg {x : Binary64} (hx : zero ≤ x) (places : Nat) :
    zero ≤ x.roundHalfEven places := by
  cases h : x.exceedsFixed with
  | true => rwa [roundHalfEven_of_exceedsFixed h]
  | false =>
    rw [Decimal.roundHalfEven_eq h, nonneg_iff]
    refine ⟨Decimal.toBinary64_ne_nan _, ?_⟩
    intro hn
    rw [Decimal.negative_toBinary64] at hn
    obtain ⟨hneg, hzero⟩ : x.negative = true ∧ x.isZero = false := by
      simpa [toFixed] using hn
    have := (nonneg_iff.mp hx).2 hneg
    cases x with
    | finite s u hu => simp_all [isZero, magnitude]
    | nan => cases hneg
    | infinite s => exact absurd this (Nat.ne_of_gt overflowLimit_pos)

/-- **Rounding half to even keeps the order** of numbers that are not negative. -/
theorem roundHalfEven_le {x y : Binary64} (hx : zero ≤ x) (h : x ≤ y) (places : Nat) :
    x.roundHalfEven places ≤ y.roundHalfEven places := by
  have hy := le_trans hx h
  rw [le_iff_magnitude hx hy] at h
  rw [le_iff_magnitude (roundHalfEven_nonneg hx places) (roundHalfEven_nonneg hy places)]
  exact Decimal.magnitude_roundHalfEven_mono (nonneg_iff.mp hx).1 (nonneg_iff.mp hy).1 h places

end ContestGrading.Binary64
