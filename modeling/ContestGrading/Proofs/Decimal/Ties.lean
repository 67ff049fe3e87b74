import ContestGrading.Proofs.Decimal.HalfEven
import ContestGrading.Proofs.Decimal.NearestEven
import ContestGrading.Proofs.Decimal.Precision
/-!
# Halves are judged exactly

Whether a double lies half way between two decimals is judged on a hundred
decimal places, which need not be all it has. For up to 41 places that is
exact: a double that is not half way is further from it than the places that
are cut off, since it is a multiple of a power of two that is not much less
than itself.

Results:
* `half_of_isHalfAt`, `isHalfAt_of_half`: the half that is seen is there.
* `isNearestEven_evenCoefficient`: the coefficient that is read back is the
  nearest one, of two the even one.
-/
namespace ContestGrading.Decimal

open Binary64 (unitsPerOne Representable)

variable {x : Binary64} {places : Nat}

/-- The cut-off, in terms of the exact value. -/
theorem exceedsFixed_iff_abs_value (hx : x.isFinite = true) :
    x.exceedsFixed = true ↔ 10 ^ 21 ≤ |x.value| := by
  have hone := unitsPerOne_cast_pos
  rw [Binary64.abs_value, inOnes, le_div_iff₀ hone, ← not_iff_not, Bool.not_eq_true,
    exceedsFixed_eq_false_iff, not_le, and_iff_right hx]
  exact_mod_cast Iff.rfl

/-! ## A half that is seen -/

theorem representable_units (x : Binary64) : Representable x.units := by
  cases x with
  | finite s u h => exact h
  | nan => exact Binary64.representable_zero
  | infinite s => exact Binary64.representable_zero

/-- A power of two that divides a magnitude and one, and is not much less. -/
theorem exists_pow_dvd {u : Nat} (hu : Representable u) :
    ∃ t, 0 < t ∧ t ∣ u ∧ t ∣ unitsPerOne ∧ (t = unitsPerOne ∨ u < 2 ^ 53 * t) := by
  have hone : unitsPerOne = 2 ^ unitsPerOne.log2 := Binary64.unitsPerOne_eq_pow
  have hdvd : 2 ^ (u.log2 - 52) ∣ u := hu.2
  generalize unitsPerOne.log2 = s at hone
  rw [hone]
  by_cases h : u.log2 - 52 ≤ s
  · refine ⟨2 ^ (u.log2 - 52), Nat.two_pow_pos _, hdvd, Nat.pow_dvd_pow 2 h, .inr ?_⟩
    rw [← Nat.pow_add]
    exact Nat.lt_of_lt_of_le Nat.lt_log2_self (Nat.pow_le_pow_right (by decide) (by omega))
  · exact ⟨2 ^ s, Nat.two_pow_pos _, Nat.dvd_trans (Nat.pow_dvd_pow 2 (by omega)) hdvd,
      Nat.dvd_refl _, .inl rfl⟩

/-- A magnitude that is within the last place of a half is the half. -/
theorem eq_of_near_half {u n p m : Nat} (hu : Representable u) (hn : 0 < n) (hm : 10 ≤ m)
    (hpm : 20 * p * 2 ^ 53 < 9 * m)
    (h : |(2 * u * p : ℤ) - n * unitsPerOne| * m ≤ unitsPerOne) :
    2 * u * p = n * unitsPerOne := by
  obtain ⟨t, ht, htu, htone, hsize⟩ := exists_pow_dvd hu
  by_contra hne
  -- the distance is a multiple of `t`
  have hdist : (t : ℤ) ≤ |(2 * u * p : ℤ) - n * unitsPerOne| := by
    refine Int.le_of_dvd (abs_pos.mpr (sub_ne_zero.mpr (by exact_mod_cast hne))) ?_
    refine (dvd_abs _ _).mpr (dvd_sub ?_ ?_)
    · exact dvd_mul_of_dvd_left (dvd_mul_of_dvd_right (Int.natCast_dvd_natCast.mpr htu) _) _
    · exact dvd_mul_of_dvd_right (Int.natCast_dvd_natCast.mpr htone) _
  have htm : (t : ℤ) * m ≤ unitsPerOne :=
    (mul_le_mul_of_nonneg_right hdist (Int.natCast_nonneg m)).trans h
  have hone : (0 : ℤ) < unitsPerOne := by exact_mod_cast Binary64.unitsPerOne_pos
  have hm' : (10 : ℤ) ≤ m := by exact_mod_cast hm
  rcases hsize with rfl | hlt
  · nlinarith
  · -- near a half, the magnitude is not much less than one
    have hnear : (9 * unitsPerOne : ℤ) ≤ 20 * u * p := by
      have hten : |(2 * u * p : ℤ) - n * unitsPerOne| * 10 ≤ unitsPerOne :=
        (mul_le_mul_of_nonneg_left hm' (abs_nonneg _)).trans h
      have hn : (1 : ℤ) * unitsPerOne ≤ n * unitsPerOne :=
        mul_le_mul_of_nonneg_right (by exact_mod_cast hn) hone.le
      have := neg_abs_le ((2 * u * p : ℤ) - n * unitsPerOne)
      linarith
    have hnear : 9 * unitsPerOne ≤ 20 * u * p := by exact_mod_cast hnear
    have htm : t * m ≤ unitsPerOne := by exact_mod_cast htm
    have : 20 * u * p < 20 * u * p := calc
      20 * u * p = u * (20 * p) := by ring
      _ ≤ 2 ^ 53 * t * (20 * p) := Nat.mul_le_mul_right _ hlt.le
      _ = 20 * p * 2 ^ 53 * t := by ring
      _ < 9 * m * t := Nat.mul_lt_mul_of_pos_right hpm ht
      _ = 9 * (t * m) := by ring
      _ ≤ 9 * unitsPerOne := Nat.mul_le_mul_left 9 htm
      _ ≤ 20 * u * p := hnear
    exact Nat.lt_irrefl _ this

theorem half_of_isHalfAt (h : x.isHalfAt places) (hp : places ≤ 41) :
    inOnes x.units * 10 ^ places = x.kept places + 1 / 2 := by
  obtain ⟨k, hplaces, hexp⟩ := expansion_of_isHalfAt h
  obtain ⟨hge, hle⟩ := expansion_nearest x
  -- in units of half a place, the expansion is an odd number of them
  have hclose : |(2 * x.units * (10 ^ places : Nat) : ℤ) - (2 * x.kept places + 1 : Nat) *
      unitsPerOne| * (10 * 10 ^ k : Nat) ≤ unitsPerOne := by
    have hplaces : (10 : ℚ) ^ Binary64.expansionPlaces = 10 ^ places * (10 * 10 ^ k) := by
      exact_mod_cast hplaces
    have hunits : (x.units : ℚ) = inOnes x.units * unitsPerOne :=
      (div_mul_cancel₀ _ unitsPerOne_cast_pos.ne').symm
    rw [hplaces, hexp] at hge hle
    push_cast at hge hle
    have hpos : (0 : ℚ) ≤ 10 * 10 ^ k := by positivity
    have hone := unitsPerOne_cast_pos
    rw [← Int.cast_le (R := ℚ)]
    push_cast
    rw [hunits]
    generalize (unitsPerOne : ℚ) = one at hone
    generalize (10 : ℚ) ^ k = ten at hge hle hpos
    generalize inOnes x.units = v at hge hle
    rw [← abs_of_nonneg hpos, ← abs_mul, abs_le]
    constructor <;> nlinarith
  have heq := eq_of_near_half (representable_units x) (Nat.succ_pos _) (by
    have := Nat.pow_pos (n := k) (show 0 < 10 by decide)
    omega) ?_ hclose
  · have heq : (2 * x.units * 10 ^ places : ℚ) = (2 * x.kept places + 1) * unitsPerOne := by
      exact_mod_cast heq
    have hone := unitsPerOne_cast_pos.ne'
    rw [inOnes]
    field_simp
    linarith
  · -- forty-one places leave enough of the hundred
    have hpow : 10 ^ places ≤ 10 ^ 41 := Nat.pow_le_pow_right (by decide) hp
    have hexpansion : 10 ^ Binary64.expansionPlaces = 10 ^ 41 * 10 ^ 59 := by decide +kernel
    have : 10 ^ 59 ≤ 10 * 10 ^ k := by
      refine Nat.le_of_mul_le_mul_left ?_ (show 0 < 10 ^ 41 by decide)
      rw [← hexpansion, hplaces]
      exact Nat.mul_le_mul_right _ hpow
    omega

/-- Half of the last place on which a half is judged, in units of the place
that is rounded to. -/
def unseenGap (places : Nat) : ℚ := 10 ^ places / (2 * 10 ^ Binary64.expansionPlaces)

theorem unseenGap_pos (places : Nat) : 0 < unseenGap places := by
  unfold unseenGap
  positivity

/-- What is less than that above a half is seen as one. -/
theorem isHalfAt_of_near {m : Nat} (hlow : (m : ℚ) + 1 / 2 ≤ inOnes x.units * 10 ^ places)
    (hhigh : inOnes x.units * 10 ^ places < m + 1 / 2 + unseenGap places)
    (hp : places < Binary64.expansionPlaces) : x.isHalfAt places ∧ x.kept places = m := by
  obtain ⟨k, hk⟩ : ∃ k, Binary64.expansionPlaces = places + (k + 1) :=
    ⟨Binary64.expansionPlaces - places - 1, by omega⟩
  have hexp : x.expansion = 10 * 10 ^ k * m + 5 * 10 ^ k := by
    refine (expansion_nearest x).unique ?_
    have hscale : inOnes x.units * 10 ^ Binary64.expansionPlaces =
        inOnes x.units * 10 ^ places * (10 * 10 ^ k) := by
      rw [hk]
      ring
    have hlast : unseenGap places * (10 * 10 ^ k) = 1 / 2 := by
      rw [unseenGap, hk]
      field_simp
      ring
    have hten : (0 : ℚ) < 10 * 10 ^ k := by positivity
    have hlow := mul_le_mul_of_nonneg_right hlow hten.le
    have hhigh := mul_lt_mul_of_pos_right hhigh hten
    rw [add_mul _ _ (10 * 10 ^ k : ℚ), hlast] at hhigh
    rw [hscale]
    constructor
    · push_cast
      linarith
    · push_cast
      linarith
  have hpow : powerOfTen (Binary64.expansionPlaces - places) = 10 * 10 ^ k := by
    rw [powerOfTen_eq, show Binary64.expansionPlaces - places = k + 1 by omega, Nat.pow_succ,
      Nat.mul_comm]
  have hlt : 5 * 10 ^ k < 10 * 10 ^ k :=
    Nat.mul_lt_mul_of_pos_right (by decide) (Nat.pow_pos (by decide))
  constructor
  · refine ⟨hp, ?_⟩
    rw [hexp, hpow, Nat.mul_add_mod, Nat.mod_eq_of_lt hlt, powerOfTen_eq,
      show Binary64.expansionPlaces - places - 1 = k by omega]
  · rw [Binary64.kept, hexp, hpow, Nat.mul_add_div (by omega), Nat.div_eq_of_lt hlt, Nat.add_zero]

/-- A half is seen on all of its places. -/
theorem isHalfAt_of_half {m : Nat} (h : inOnes x.units * 10 ^ places = m + 1 / 2)
    (hp : places < Binary64.expansionPlaces) : x.isHalfAt places ∧ x.kept places = m := by
  refine isHalfAt_of_near h.ge ?_ hp
  rw [h]
  linarith [unseenGap_pos places]

/-! ## The coefficient -/

theorem scaled_nonneg (x : Binary64) (places : Nat) : 0 ≤ inOnes x.units * 10 ^ places :=
  mul_nonneg (inOnes_nonneg _) (by positivity)

/-- A half that is not seen to be above an even digit is not one. -/
theorem isNearestEven_toFixed (h0 : 0 < places) (hp : places < Binary64.expansionPlaces)
    (h : ¬ (x.isHalfAt places ∧ 0 < places ∧ x.kept places % 2 = 0)) :
    IsNearestEven (inOnes x.units * 10 ^ places) (x.toFixed places).coefficient := by
  refine ((toFixed_nearest places x).even_or_half (scaled_nonneg x places)).resolve_right ?_
  rintro ⟨m, heven, -, hhalf⟩
  obtain ⟨hseen, hkept⟩ := isHalfAt_of_half hhalf hp
  exact h ⟨hseen, h0, by rw [hkept]; exact Nat.even_iff.mp heven⟩

theorem isNearestEven_evenCoefficient (x : Binary64) (h0 : 0 < places) (hp : places ≤ 41) :
    IsNearestEven (inOnes x.units * 10 ^ places) (evenCoefficient places x) := by
  unfold evenCoefficient
  split
  next h =>
    obtain ⟨hhalf, -, heven⟩ := h
    refine ⟨?_, fun _ => by exact_mod_cast Nat.even_iff.mpr heven⟩
    rw [half_of_isHalfAt hhalf hp]
    norm_num
  next h => exact isNearestEven_toFixed h0 (by rw [Binary64.expansionPlaces]; omega) h

end ContestGrading.Decimal
