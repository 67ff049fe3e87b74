import ContestGrading.Proofs.Decimal.General
import ContestGrading.Proofs.Decimal.Significant
import ContestGrading.Proofs.Decimal.Ties
/-!
# What the text of a score denotes

A score is rounded to two places, read back as a double and rounded again to
six digits. Below `9999.995` the second rounding undoes the error of the
double, and the text is the shortest numeral of the score rounded once. In
general the text denotes a number of six digits that is nearest to the score
rounded to two places.

Results:
* `roundHalfEven_error`: the error of the double that is read back.
* `size_toSignificant_roundHalfEven`: six digits undo it.
* `exponent_mem_scoreText`: when there is an exponent.
* `scoreText_exact`: what the text of a score denotes.
-/
namespace ContestGrading.Decimal

open Binary64 (unitsPerOne rounded)

variable {x : Binary64}

/-! ## Rounding to two places -/

theorem units_roundHalfEven (hx : x.exceedsFixed = false) :
    (x.roundHalfEven 2).units = rounded (evenCoefficient 2 x * unitsPerOne) 100 := by
  have hfinite := isFinite_roundHalfEven (exceedsFixed_eq_false_iff.mp hx).1 2
  rw [units_eq_magnitude hfinite, roundHalfEven_eq hx, magnitude_toBinary64]
  rfl

/-- Rounded to nothing, a score is a zero. -/
theorem units_roundHalfEven_eq_zero (hx : x.exceedsFixed = false) (h : evenCoefficient 2 x = 0) :
    (x.roundHalfEven 2).units = 0 := by
  rw [units_roundHalfEven hx, h, Nat.zero_mul, Binary64.rounded_zero (by decide)]

/-- The double that is read back is off by at most one part in `2 ^ 53`. -/
theorem roundHalfEven_error (hx : x.exceedsFixed = false) (h : 0 < evenCoefficient 2 x) :
    |inOnes (x.roundHalfEven 2).units - evenCoefficient 2 x / 100| ≤
      evenCoefficient 2 x / 100 / 2 ^ 53 := by
  have hlt := (x.roundHalfEven 2).units_lt
  rw [units_eq_magnitude (isFinite_roundHalfEven (exceedsFixed_eq_false_iff.mp hx).1 2),
    roundHalfEven_eq hx] at hlt ⊢
  have hsize : Decimal.size ⟨(x.toFixed 2).negative, evenCoefficient 2 x, -(2 : Nat)⟩ =
      evenCoefficient 2 x / 100 := by
    rw [Decimal.size, zpow_neg, zpow_natCast, ← div_eq_mul_inv]
    norm_num
  have hle : Decimal.size ⟨false, 1, -2⟩ ≤ evenCoefficient 2 x / 100 := by
    have h : (1 : ℚ) ≤ evenCoefficient 2 x := by exact_mod_cast h
    norm_num [Decimal.size]
    linarith
  rw [← hsize] at hle ⊢
  exact toBinary64_error (Nat.le_trans (by decide +kernel) (magnitude_toBinary64_mono hle)) hlt

/-- What is not rounded to zero keeps away from it. -/
theorem inOnes_roundHalfEven_gt (h : 0 < (x.roundHalfEven 2).units) :
    1 / 1000 < inOnes (x.roundHalfEven 2).units := by
  cases hx : x.exceedsFixed with
  | true =>
    rw [Binary64.roundHalfEven_of_exceedsFixed hx] at h ⊢
    have hfinite := isFinite_of_units_pos h
    have hne : x ≠ .nan := by
      rintro rfl
      cases hfinite
    have hunits := le_magnitude_of_exceedsFixed hne hx
    rw [← units_eq_magnitude hfinite] at hunits
    rw [inOnes, lt_div_iff₀ unitsPerOne_cast_pos]
    have hunits : (10 : ℚ) ^ 21 * unitsPerOne ≤ x.units := by exact_mod_cast hunits
    have := unitsPerOne_cast_pos
    linarith
  | false =>
    have hk : 0 < evenCoefficient 2 x := by
      by_contra hk
      rw [units_roundHalfEven_eq_zero hx (Nat.eq_zero_of_not_pos hk)] at h
      exact Nat.lt_irrefl 0 h
    have herror := (abs_le.mp (roundHalfEven_error hx hk)).1
    have hk : (1 : ℚ) ≤ evenCoefficient 2 x := by exact_mod_cast hk
    linarith

theorem isNearestEven_twoPlaces (x : Binary64) :
    IsNearestEven (inOnes x.units * 10 ^ 2) (evenCoefficient 2 x) :=
  isNearestEven_evenCoefficient x (by decide) (by decide)

/-- Below `9999.995` a score is rounded to at most `9999.99`. -/
theorem evenCoefficient_le_of_lt (h : |x.value| < 9999.995) :
    (evenCoefficient 2 x : ℚ) ≤ 999999 := by
  have hnear := (abs_le.mp (isNearestEven_twoPlaces x).1).1
  rw [Int.cast_natCast] at hnear
  rw [Binary64.abs_value] at h
  have hlt : (evenCoefficient 2 x : ℚ) < 1000000 := by
    norm_num at h
    linarith
  have hlt : evenCoefficient 2 x < 1000000 := by exact_mod_cast hlt
  exact_mod_cast Nat.lt_succ_iff.mp hlt

theorem exceedsFixed_of_lt (hx : x.isFinite = true) (h : |x.value| < 9999.995) :
    x.exceedsFixed = false := by
  rw [← Bool.not_eq_true, exceedsFixed_iff_abs_value hx, not_le]
  refine h.trans ?_
  norm_num

/-- Six digits undo the error of the double that is read back. -/
theorem size_toSignificant_roundHalfEven (hx : x.isFinite = true) (h : |x.value| < 9999.995)
    (hk : 0 < evenCoefficient 2 x) :
    0 < (x.roundHalfEven 2).units ∧
      ((x.roundHalfEven 2).toSignificant 6).size = evenCoefficient 2 x / 100 := by
  have herror := roundHalfEven_error (exceedsFixed_of_lt hx h) hk
  have hlt := evenCoefficient_le_of_lt h
  obtain ⟨hlow, hhigh⟩ := abs_le.mp herror
  generalize x.roundHalfEven 2 = y at herror hlow hhigh
  generalize evenCoefficient 2 x = k at hk herror hlt hlow hhigh
  have hk' : (0 : ℚ) < k := Nat.cast_pos.mpr hk
  have hpos : 0 < y.units := by
    have : 0 < inOnes y.units := by linarith
    rw [inOnes, lt_div_iff₀ unitsPerOne_cast_pos, zero_mul] at this
    exact_mod_cast this
  refine ⟨hpos, ?_⟩
  -- both places are among the six digits
  obtain ⟨j, hj⟩ : ∃ j : Nat, lastExponent 6 y + j = -2 := by
    have hexponent : y.decimalExponent < 4 := by
      rw [decimalExponent_lt_iff hpos]
      norm_num
      linarith
    exact ⟨(-2 - lastExponent 6 y).toNat, by unfold lastExponent; omega⟩
  have hgrid : (k : ℚ) / 100 = (k * 10 ^ j : Nat) * 10 ^ lastExponent 6 y := by
    have e : (10 : ℚ) ^ lastExponent 6 y * 10 ^ j = 1 / 100 := by
      rw [← zpow_natCast, ← zpow_add₀ (by norm_num), hj]
      norm_num
    push_cast
    rw [mul_assoc, mul_comm ((10 : ℚ) ^ j), e, mul_one_div]
  rw [hgrid] at herror ⊢
  exact size_toSignificant_of_close hpos (by decide) herror

/-! ## The exponent -/

/-- What is left of a score is not so small that it would need an exponent. -/
theorem generalExponent_roundHalfEven_ge (h : 0 < (x.roundHalfEven 2).units) :
    -4 ≤ (x.roundHalfEven 2).generalExponent 6 := by
  have hgt := inOnes_roundHalfEven_gt h
  have hexponent : -3 ≤ (x.roundHalfEven 2).decimalExponent := by
    rw [le_decimalExponent_iff h]
    norm_num at hgt ⊢
    exact hgt.le
  rcases generalExponent_cases h 5 with e | e <;> rw [e] <;> omega

/-- A score has an exponent if six digits do not reach to its point. -/
theorem exponent_mem_scoreText (hx : x.isFinite = true) :
    101 ∈ scoreText x ↔ 10 ^ 6 ≤ ((x.roundHalfEven 2).toSignificant 6).size := by
  have hfinite := isFinite_roundHalfEven hx 2
  rw [scoreText]
  rcases Nat.eq_zero_or_pos (x.roundHalfEven 2).units with h0 | hpos
  · rw [Binary64.generalText_zero _ (isZero_of_units_eq_zero hfinite h0),
      size_toSignificant_of_units_eq_zero hfinite h0]
    exact iff_of_false (by decide) (by norm_num)
  · exact exponent_mem_generalText hpos (by decide) (generalExponent_roundHalfEven_ge hpos)

/-! ## The text -/

/-- The score rounded once, in hundredths. -/
def hundredths (x : Binary64) : ℤ :=
  if x.negative then -(evenCoefficient 2 x : ℤ) else evenCoefficient 2 x

theorem isNearestEven_hundredths (hx : x.isFinite = true) :
    IsNearestEven (x.value * 100) (hundredths x) := by
  have h := isNearestEven_twoPlaces x
  have e : (100 : ℚ) = 10 ^ 2 := by norm_num
  rw [value_eq_inOnes hx, hundredths, e]
  split
  · rw [neg_mul]
    exact h.neg
  · exact h

theorem isZero_of_evenCoefficient_pos (h : 0 < evenCoefficient 2 x) : x.isZero = false := by
  apply isZero_of_units_pos
  by_contra h0
  have hnear := (abs_le.mp (isNearestEven_twoPlaces x).1).1
  rw [Nat.eq_zero_of_not_pos h0, Int.cast_natCast] at hnear
  have h : (1 : ℚ) ≤ evenCoefficient 2 x := by exact_mod_cast h
  norm_num [inOnes] at hnear
  linarith

/-- Below `9999.995` the text is the lean numeral of the score rounded once. -/
theorem scoreText_eq_text (hx : x.isFinite = true) (h : |x.value| < 9999.995) :
    ∃ n : Plain, scoreText x = n.text ∧ n.value = hundredths x / 100 ∧ n.IsLean := by
  have hfixed := exceedsFixed_of_lt hx h
  rcases Nat.eq_zero_or_pos (evenCoefficient 2 x) with hk | hk
  · have hzero := isZero_of_units_eq_zero (isFinite_roundHalfEven hx 2)
      (units_roundHalfEven_eq_zero hfixed hk)
    refine ⟨.zero, Binary64.generalText_zero _ hzero, ?_, Plain.isLean_zero⟩
    simp [Plain.value_zero, hundredths, hk]
  · obtain ⟨hpos, hsize⟩ := size_toSignificant_roundHalfEven hx h hk
    have hsign : (x.roundHalfEven 2).negative = x.negative := by
      rw [negative_roundHalfEven hfixed 2, isZero_of_evenCoefficient_pos hk]
      simp
    have hlow := generalExponent_roundHalfEven_ge hpos
    have hhigh : (x.roundHalfEven 2).generalExponent 6 ≤ 5 := by
      have hle := (generalExponent_bounds hpos 5).1
      have hlt := evenCoefficient_le_of_lt h
      rw [hsize] at hle
      have hexponent : (10 : ℚ) ^ (x.roundHalfEven 2).generalExponent 6 < 10 ^ (6 : ℤ) := by
        refine hle.trans_lt ?_
        rw [show (10 : ℚ) ^ (6 : ℤ) = 1000000 by norm_num]
        linarith
      have := (zpow_lt_zpow_iff_right₀ (by norm_num : (1 : ℚ) < 10)).mp hexponent
      omega
    obtain ⟨n, htext, hnegative, hn, hlean⟩ := generalText_positional hpos (by decide) hlow hhigh
    refine ⟨n, htext, ?_, hlean⟩
    rw [Plain.value, hnegative, hsign, hn, hsize, hundredths]
    split
    · rw [Int.cast_neg, neg_div]
      rfl
    · rfl

/-- **The text of a score** denotes a number of six digits that is nearest to
the score rounded to two places, with an exponent from a million on. Below
`9999.995` it is the shortest numeral of the score itself rounded to two
places, a half to the even digit. -/
theorem scoreText_exact (hx : x.isFinite = true) :
    ∃ d, ofText? (scoreText x) = some d ∧
      IsNearestSignificant 6 (x.roundHalfEven 2).value d.value ∧
      (101 ∈ scoreText x ↔ 10 ^ 6 ≤ |d.value|) ∧
      (|x.value| < 9999.995 →
        ∃ (k : ℤ) (n : Plain), IsNearestEven (x.value * 100) k ∧ d.value = k / 100 ∧
          scoreText x = n.text ∧ n.value = d.value ∧ n.IsLean ∧
          (∀ m : Plain, m.value = n.value → m ≠ n → n.text.length < m.text.length) ∧
          (k = 0 → scoreText x = [48])) := by
  have hfinite := isFinite_roundHalfEven hx 2
  obtain ⟨d, hread, hvalue⟩ := value_generalText hfinite (p := 5) (by decide)
  refine ⟨d, hread, ?_, ?_, fun h => ?_⟩
  · rw [hvalue]
    exact isNearestSignificant_toSignificant hfinite 5
  · rw [hvalue, abs_value]
    exact exponent_mem_scoreText hx
  · obtain ⟨n, htext, hn, hlean⟩ := scoreText_eq_text hx h
    have hdn : d.value = n.value := by
      refine n.value_of_ofText? ?_
      rw [← htext]
      exact hread
    refine ⟨hundredths x, n, isNearestEven_hundredths hx, hdn.trans hn, htext, hdn.symm, hlean,
      fun m => Plain.length_text_lt hlean, fun hk => ?_⟩
    have hzero : n = .zero := by
      refine Plain.eq_of_value_eq hlean Plain.isLean_zero ?_
      rw [hn, hk, Plain.value_zero, Int.cast_zero, zero_div]
    rw [htext, hzero, Plain.text_zero]

/-- An eighth is half way between two hundredths. -/
def eighth : Binary64 := .finite false (unitsPerOne / 8) (by decide +kernel)

theorem value_eighth : eighth.value = 1 / 8 := by
  have h : ((unitsPerOne / 8 : Nat) : ℚ) * 8 = unitsPerOne := by
    exact_mod_cast (by decide +kernel : unitsPerOne / 8 * 8 = unitsPerOne)
  have hone := unitsPerOne_cast_pos.ne'
  rw [Binary64.value, eighth, Binary64.scaled, Int.cast_natCast, div_eq_div_iff hone (by norm_num)]
  linarith

/-- The half goes to the even hundredth. -/
theorem eq_twelve_of_eighth {k : ℤ} (h : IsNearestEven (eighth.value * 100) k) : k = 12 := by
  rw [value_eighth] at h
  obtain ⟨hle, heven⟩ := h
  obtain ⟨hlow, hhigh⟩ := abs_le.mp hle
  have hlow : (12 : ℚ) ≤ k := by linarith
  have hhigh : (k : ℚ) ≤ 13 := by linarith
  have hlow : 12 ≤ k := by exact_mod_cast hlow
  have hhigh : k ≤ 13 := by exact_mod_cast hhigh
  rcases (by omega : k = 12 ∨ k = 13) with rfl | rfl
  · rfl
  · exact absurd (heven (by norm_num [abs])) (by decide)

theorem scoreText_exact_eighth :
    eighth.isFinite = true ∧ |eighth.value| < 9999.995 ∧ scoreText eighth = ("0.12" : Text) ∧
      ∃ d, ofText? (scoreText eighth) = some d ∧ d.value = 12 / 100 ∧
        IsNearestSignificant 6 (eighth.roundHalfEven 2).value d.value := by
  have hlt : |eighth.value| < 9999.995 := by
    rw [value_eighth]
    norm_num [abs]
  obtain ⟨d, hread, hnear, -, h⟩ := scoreText_exact (x := eighth) rfl
  obtain ⟨k, n, hk, hvalue, -⟩ := h hlt
  refine ⟨rfl, hlt, by decide +kernel, d, hread, ?_, hnear⟩
  rw [hvalue, eq_twelve_of_eighth hk]
  norm_num

end ContestGrading.Decimal
