import ContestGrading.Proofs.Decimal.Idempotence
import ContestGrading.Proofs.Decimal.Reread
import ContestGrading.Proofs.Decimal.ScoreText
/-!
# Scores that are read back

The text of a score shows no digit beyond the second place, so it denotes a
number of hundredths. The double that it is read as is its own rounding to two
places, as there are either few enough hundredths for the nearest one to be
found, or no fraction at all; and it has the six digits that were read. So the
text of a score that was read back is the same text, whatever the score.

Results:
* `roundHalfEven_of_isInteger`, `roundHalfEven_of_read`: what is its own rounding.
* `exists_hundredths`: six digits of a rounded score are hundredths.
* `scoreText_ofText`: the text of a score is stable.
* `rounding_stable_iff`: and exactly which roundings are.
-/
namespace ContestGrading.Decimal

open Binary64 (unitsPerOne overflowLimit spacing)

variable {x : Binary64} {d : Decimal} {places : Nat}

/-! ## What is its own rounding -/

/-- A number whose coefficient is the number itself is its own rounding. -/
theorem roundHalfEven_of_coefficient (hx : 0 < x.units)
    (hc : x.exceedsFixed = false →
      toBinary64 ⟨x.negative, evenCoefficient places x, -places⟩ = x) :
    x.roundHalfEven places = x := by
  cases h : x.exceedsFixed with
  | true => exact Binary64.roundHalfEven_of_exceedsFixed h places
  | false =>
    have hsign : (x.toFixed places).negative = x.negative := by
      simp [Binary64.toFixed, isZero_of_units_pos hx]
    rw [roundHalfEven_eq h, hsign, hc h]

/-- Whole numbers are their own rounding. -/
theorem roundHalfEven_of_isInteger (hx : 0 < x.units) (h : x.isInteger = true) (h0 : 0 < places)
    (hp : places ≤ 41) : x.roundHalfEven places = x := by
  have hfinite := isFinite_of_units_pos hx
  obtain ⟨m, hm⟩ : unitsPerOne ∣ x.units := by
    obtain ⟨s, u, hu, rfl⟩ := Binary64.exists_of_isFinite hfinite
    exact Nat.dvd_of_mod_eq_zero (beq_iff_eq.mp h)
  have hones : inOnes x.units = m := by rw [hm, Nat.mul_comm, inOnes_mul_unitsPerOne]
  have hpos : (0 : ℚ) < inOnes x.units := inOnes_zero ▸ inOnes_lt_inOnes.mpr hx
  refine roundHalfEven_of_coefficient hx fun _ => ?_
  have hself : IsNearestEven (inOnes x.units * 10 ^ places) (m * 10 ^ places : Nat) := by
    rw [hones, IsNearestEven]
    push_cast
    norm_num
  have hcoefficient : evenCoefficient places x = m * 10 ^ places := by
    exact_mod_cast (isNearestEven_evenCoefficient x h0 hp).unique hself
  refine toBinary64_eq_of_close hfinite rfl ?_
  have hsize : size ⟨x.negative, evenCoefficient places x, -places⟩ = inOnes x.units := by
    rw [size, hcoefficient, hones, zpow_neg, zpow_natCast, Nat.cast_mul, Nat.cast_pow,
      Nat.cast_ofNat, mul_inv_cancel_right₀ (by positivity)]
  rwa [hsize, sub_self, abs_zero, mul_zero]

/-- Up to `2 ^ 53` every whole number is a double. -/
theorem magnitude_of_size_eq {n : Nat} (hn : d.size = n) (hle : n ≤ 2 ^ 53) :
    d.toBinary64.magnitude = n * unitsPerOne :=
  magnitude_toBinary64_of_size (Binary64.representable_mul_unitsPerOne hle)
    (by rw [hn, inOnes_mul_unitsPerOne])

/-- What a whole number is read as is one. -/
theorem isInteger_of_read (hx : x.isFinite = true) (hd : d.toBinary64 = x) {n : Nat}
    (hn : d.size = n) : x.isInteger = true := by
  have hunits : x.units = d.toBinary64.magnitude := by rw [units_eq_magnitude hx, hd]
  have hdvd : unitsPerOne ∣ x.units := by
    rcases Nat.le_total n (2 ^ 53) with hle | hge
    · rw [hunits, magnitude_of_size_eq hn hle]
      exact Nat.dvd_mul_left _ _
    · -- from there on every double is a whole number
      have hlimit : size ⟨false, 2 ^ 53, 0⟩ = (2 ^ 53 : Nat) := by rw [size, zpow_zero, mul_one]
      have hlarge : 2 ^ 53 * unitsPerOne ≤ x.units := by
        rw [hunits, ← magnitude_of_size_eq hlimit le_rfl]
        refine magnitude_toBinary64_mono ?_
        rw [hlimit, hn]
        exact_mod_cast hge
      obtain ⟨t, -, hdvd, htone, rfl | hlt⟩ := exists_pow_dvd (representable_units x)
      · exact hdvd
      · have hle := Nat.mul_le_mul_left (2 ^ 53) (Nat.le_of_dvd Binary64.unitsPerOne_pos htone)
        omega
  obtain ⟨s, u, hu, rfl⟩ := Binary64.exists_of_isFinite hx
  exact beq_iff_eq.mpr (Nat.mod_eq_zero_of_dvd hdvd)

/-- What few multiples of a place are read as is its own rounding to it. -/
theorem roundHalfEven_of_read (hx : 2 ^ 53 ≤ x.units) (hd : d.toBinary64 = x) {n : Nat}
    (hn : d.size = n / 10 ^ places) (hlt : n < 2 ^ 52) (h0 : 0 < places) (hp : places ≤ 41) :
    x.roundHalfEven places = x := by
  have hpos : 0 < x.units := by omega
  refine roundHalfEven_of_coefficient hpos fun _ => ?_
  have herror := error_of_read hx hd
  have hclose : |inOnes x.units * 10 ^ places - (n : ℤ)| < 1 / 2 := by
    have hten : (0 : ℚ) < 10 ^ places := by positivity
    have hlt : (n : ℚ) < 2 ^ 52 := by exact_mod_cast hlt
    have hscaled := mul_le_mul_of_nonneg_right herror hten.le
    rw [hn, ← abs_of_pos hten, ← abs_mul, abs_of_pos hten, sub_mul, div_mul_cancel₀ _ hten.ne',
      div_right_comm, div_mul_cancel₀ _ hten.ne'] at hscaled
    rw [Int.cast_natCast]
    linarith
  have hcoefficient : evenCoefficient places x = n := by
    have hnearest : IsNearestEven (inOnes x.units * 10 ^ places) n :=
      ⟨hclose.le, fun h => absurd h hclose.ne⟩
    exact_mod_cast (isNearestEven_evenCoefficient x h0 hp).unique hnearest
  rw [← hd] at hcoefficient ⊢
  rw [hcoefficient, negative_toBinary64]
  refine toBinary64_congr rfl ?_
  rw [hn, size, zpow_neg, zpow_natCast, div_eq_mul_inv]

/-! ## The digits of a rounded score -/

/-- What is rounded to something else than zero has a coefficient. -/
theorem evenCoefficient_pos (hx : x.exceedsFixed = false) (h : 0 < (x.roundHalfEven 2).units) :
    0 < evenCoefficient 2 x := by
  refine Nat.pos_of_ne_zero fun h0 => ?_
  rw [units_roundHalfEven_eq_zero hx h0] at h
  exact Nat.lt_irrefl 0 h

/-- From `9999.995` on a rounded score has at least four digits before the point. -/
theorem inOnes_roundHalfEven_ge (hy : 0 < (x.roundHalfEven 2).units) (h : 9999.995 ≤ |x.value|) :
    1000 ≤ inOnes (x.roundHalfEven 2).units := by
  cases hx : x.exceedsFixed with
  | true =>
    rw [Binary64.roundHalfEven_of_exceedsFixed hx, ← Binary64.abs_value]
    norm_num at h
    linarith
  | false =>
    have hnear := (abs_le.mp (isNearestEven_twoPlaces x).1).2
    have herror := (abs_le.mp (roundHalfEven_error hx (evenCoefficient_pos hx hy))).1
    rw [Int.cast_natCast] at hnear
    rw [Binary64.abs_value] at h
    norm_num at h
    linarith

/-- The six digits of a rounded score end at the second place at the latest. -/
theorem exists_hundredths (hx : x.isFinite = true) (hy : 0 < (x.roundHalfEven 2).units) :
    ∃ n : Nat, ((x.roundHalfEven 2).toSignificant 6).size = n / 10 ^ 2 := by
  rcases lt_or_ge |x.value| 9999.995 with h | h
  · have hk := evenCoefficient_pos (exceedsFixed_of_lt hx h) hy
    refine ⟨evenCoefficient 2 x, (size_toSignificant_roundHalfEven hx h hk).2.trans ?_⟩
    norm_num
  · have hge := inOnes_roundHalfEven_ge hy h
    generalize x.roundHalfEven 2 = y at hy hge
    have hexponent : 3 ≤ y.decimalExponent := by
      rw [le_decimalExponent_iff hy]
      norm_num
      exact hge
    have hlast : -2 ≤ (y.toSignificant (5 + 1)).exponent := by
      have := generalExponent_cases hy 5
      simp only [Binary64.generalExponent] at this
      omega
    obtain ⟨n, hn⟩ := exists_multiple_of_le hlast
    exact ⟨n, by rw [hn, zpow_neg, div_eq_mul_inv]; rfl⟩

/-! ## The text of a score -/

/-- The greatest finite number. -/
def greatest : Binary64 :=
  .finite false (overflowLimit - spacing (overflowLimit - 1)) (by decide +kernel)

theorem units_le_greatest (x : Binary64) : x.units ≤ greatest.units := by
  by_contra hlt
  have hstep := Binary64.add_spacing_le (representable_units greatest) (representable_units x)
    (Nat.lt_of_not_le hlt)
  have htop : greatest.units + spacing greatest.units = overflowLimit := by decide +kernel
  have := x.units_lt
  omega

/-- Six digits of a finite number are read as a finite number. -/
theorem isFinite_reread (hx : 0 < x.units) :
    (x.toSignificant (5 + 1)).toBinary64.isFinite = true := by
  have hsix : (greatest.toSignificant (5 + 1)).toBinary64.magnitude < overflowLimit := by
    decide +kernel
  have hle := magnitude_toBinary64_mono (size_toSignificant_mono hx (units_le_greatest x) 5)
  cases h : (x.toSignificant (5 + 1)).toBinary64 with
  | nan => exact absurd h (toBinary64_ne_nan _)
  | infinite s =>
    rw [h, Binary64.magnitude_infinite] at hle
    omega
  | finite s u hu => rfl

/-- Six digits that are not too small are read as a double that has them. -/
theorem le_units_reread (hx : 0 < x.units) (h : -4 ≤ x.generalExponent 6) :
    2 ^ 53 ≤ (x.toSignificant (5 + 1)).toBinary64.units := by
  have hsmall : 2 ^ 53 ≤ (toBinary64 ⟨false, 1, -4⟩).magnitude := by decide +kernel
  rw [units_eq_magnitude (isFinite_reread hx)]
  refine hsmall.trans (magnitude_toBinary64_mono ?_)
  calc size ⟨false, 1, -4⟩ = (10 : ℚ) ^ (-4 : ℤ) := by rw [size, Nat.cast_one, one_mul]
    _ ≤ 10 ^ x.generalExponent 6 := zpow_le_zpow_right₀ (by norm_num) h
    _ ≤ _ := (generalExponent_bounds hx 5).1

/-- What the six digits of a rounded score are read as is its own rounding. -/
theorem roundHalfEven_reread (hx : x.isFinite = true) (hy : 0 < (x.roundHalfEven 2).units) :
    ((x.roundHalfEven 2).toSignificant (5 + 1)).toBinary64.roundHalfEven 2 =
      ((x.roundHalfEven 2).toSignificant (5 + 1)).toBinary64 := by
  obtain ⟨n, hn⟩ := exists_hundredths hx hy
  have hlarge := le_units_reread hy (generalExponent_roundHalfEven_ge hy)
  have hfinite := isFinite_reread hy
  have hcoefficient := (toSignificant_bounds hy 5).2
  generalize (x.roundHalfEven 2).toSignificant (5 + 1) = d at hn hlarge hfinite hcoefficient
  rcases lt_or_ge d.exponent 0 with hneg | hnonneg
  · have hcount : (n : ℚ) < 2 ^ 52 := by
      have hc : (d.coefficient : ℚ) < 10 ^ 6 := by exact_mod_cast hcoefficient
      have hpow : (10 : ℚ) ^ d.exponent ≤ 1 := zpow_le_one_of_nonpos₀ (by norm_num) hneg.le
      have hsize : d.size < 10 ^ 6 := by
        refine lt_of_le_of_lt ?_ hc
        exact mul_le_of_le_one_right (Nat.cast_nonneg _) hpow
      rw [hn, div_lt_iff₀ (by norm_num)] at hsize
      linarith
    have hcount : n < 2 ^ 52 := by exact_mod_cast hcount
    exact roundHalfEven_of_read hlarge rfl hn hcount (by decide) (by decide)
  · obtain ⟨m, hm⟩ := exists_multiple_of_le hnonneg
    rw [zpow_zero, mul_one] at hm
    exact roundHalfEven_of_isInteger (by omega) (isInteger_of_read hfinite rfl hm) (by decide)
      (by decide)

/-- **The text of a score is stable.** Read back and shown again, it is the same text. -/
theorem scoreText_ofText (x : Binary64) : scoreText (.ofText (scoreText x)) = scoreText x := by
  cases hx : x.isFinite with
  | false =>
    cases x with
    | nan => decide
    | infinite s => cases s <;> decide
    | finite s u hu => cases hx
  | true =>
    have hfinite := isFinite_roundHalfEven hx 2
    rcases Nat.eq_zero_or_pos (x.roundHalfEven 2).units with h0 | hpos
    · rw [scoreText, scoreText, Binary64.generalText_zero _ (isZero_of_units_eq_zero hfinite h0)]
      decide +kernel
    · have hread : Binary64.ofText (scoreText x) = _ := ofText_generalText hpos (by decide)
      rw [hread, scoreText, scoreText, roundHalfEven_reread hx hpos]
      have hlarge := le_units_reread hpos (generalExponent_roundHalfEven_ge hpos)
      exact generalText_congr (by omega) hpos (by decide)
        (toSignificant_of_read hlarge rfl (by decide) (toSignificant_bounds hpos 5))

/-! ## Rounding twice -/

/-- A zero is rounded to the positive one. -/
theorem roundHalfEven_of_isZero (h : x.isZero = true) (places : Nat) :
    x.roundHalfEven places = Binary64.zero := by
  have hfinite : x.isFinite = true := by
    cases x with
    | nan => cases h
    | infinite s => cases h
    | finite s u hu => rfl
  have hx : x.exceedsFixed = false := by
    refine exceedsFixed_eq_false_iff.mpr ⟨hfinite, ?_⟩
    rw [units_eq_zero_of_isZero h]
    exact Nat.mul_pos (Nat.pow_pos (by decide)) Binary64.unitsPerOne_pos
  have hsign : (x.toFixed places).negative = false := by simp [Binary64.toFixed, h]
  have hcoefficient : evenCoefficient places x = 0 := by
    refine Nat.le_zero.mp ((evenCoefficient_le places x).trans ?_)
    refine (toFixed_nearest places x).le_of_le ?_
    rw [units_eq_zero_of_isZero h, inOnes_zero, zero_mul, Nat.cast_zero]
  rw [roundHalfEven_eq hx, hsign, hcoefficient]
  rfl

theorem roundTo?_places (x : Binary64) (hp : places ≤ 100) :
    Binary64.roundTo? (.ofNat places) x = some (x.roundHalfEven places) := by
  cases hx : x.exceedsFixed with
  | true => rw [Binary64.roundTo?, if_pos hx, Binary64.roundHalfEven_of_exceedsFixed hx]
  | false => exact roundTo?_ofNat hx hp

/-- **Stability.** The text of a score that is read back and shown again is the
same text, for every double. A rounding to 0 to 100 places that is rounded
again is the same number, where a zero becomes the positive one, but for the
numbers that drift when they are rounded to 99 places. -/
theorem rounding_stable_iff (x : Binary64) (hp : places ≤ 100) :
    scoreText (.ofText (scoreText x)) = scoreText x ∧
      ∃ r r', Binary64.roundTo? (.ofNat places) x = some r ∧
        Binary64.roundTo? (.ofNat places) r = some r' ∧
        (r.isZero = true → r' = Binary64.zero) ∧
        (SameNumber r' r ↔ ¬ (places = 99 ∧ Drifts x)) :=
  ⟨scoreText_ofText x, _, _, roundTo?_places x hp, roundTo?_places _ hp,
    fun h => roundHalfEven_of_isZero h places, sameNumber_roundHalfEven_iff x hp⟩

/-- Above an odd number of units of the last of 99 places, by nearly half of one. -/
def drifting : Binary64 := toBinary64 ⟨false, 62440643669870255, -100⟩

/-- What that number of units is read as, which is below it by nearly half of one. -/
def drifted : Binary64 := toBinary64 ⟨false, 6244064366987025, -99⟩

theorem roundTo?_drifting : Binary64.roundTo? (.ofNat 99) drifting = some drifted := by
  decide +kernel

/-- From there the rounding goes on to the even number before. -/
theorem roundTo?_drifted :
    Binary64.roundTo? (.ofNat 99) drifted = some (toBinary64 ⟨false, 6244064366987024, -99⟩) ∧
      ¬ SameNumber (toBinary64 ⟨false, 6244064366987024, -99⟩) drifted := by
  decide +kernel

theorem drifts_drifting :
    99 ≤ 100 ∧ scoreText (.ofText (scoreText drifting)) = scoreText drifting ∧
      Drifts drifting := by
  obtain ⟨htext, r, r', hr, hr', -, hiff⟩ := rounding_stable_iff drifting (by decide : 99 ≤ 100)
  obtain rfl := Option.some.inj (roundTo?_drifting.symm.trans hr)
  obtain rfl := Option.some.inj (roundTo?_drifted.1.symm.trans hr')
  exact ⟨by decide, htext, (not_not.mp (mt hiff.mpr roundTo?_drifted.2)).2⟩

/-- A rounding to 99 places that is rounded again is another number. -/
theorem drifting_unstable :
    ∃ r r', Binary64.roundTo? (.ofNat 99) drifting = some r ∧
      Binary64.roundTo? (.ofNat 99) r = some r' ∧ ¬ SameNumber r' r :=
  ⟨_, _, roundTo?_drifting, roundTo?_drifted⟩

end ContestGrading.Decimal
