import ContestGrading.Proofs.Decimal.HalfEven
import ContestGrading.Proofs.Decimal.Scientific
/-!
# What the general notation denotes

Read back, the general notation of a number denotes the number rounded to
significant digits: neither the layout nor the zeros that are dropped change
it. A score as the ranking shows it is such a text of the score rounded to
two places, and both roundings keep the order.

Results:
* `generalText_fixed`, `generalExponential_eq`: the two layouts.
* `ofText?_generalText`: the general notation, up to 21 digits.
* `exponent_mem_generalText`: which numbers have an exponent.
* `scoreText_le`: the numbers of the ranking keep the order of the scores.
-/
namespace ContestGrading.Decimal

variable {x y : Binary64}

/-! ## The two layouts -/

/-- The positional form is a plain numeral without the zeros at its end, and
a lean one if it is not of zero. -/
theorem generalPositional_eq (hx : x.exceedsFixed = false) (places : Nat) :
    ∃ n : Plain, x.fixedText places = n.text ∧ x.generalPositional places = n.strip.text ∧
      n.negative = (x.toFixed places).negative ∧ n.size = (x.toFixed places).size ∧
      (n.size ≠ 0 → n.strip.IsLean) := by
  have hfixed : x.fixedText places = (x.toFixed places).fixedNotation places := by
    rw [Binary64.fixedText, if_neg (by simp [hx])]
  obtain ⟨n, htext, hsign, hsize, hlean⟩ := Plain.fixedNotation_text (x.toFixed places) places
  refine ⟨n, hfixed.trans htext, ?_, hsign, ?_, hlean⟩
  · rw [Binary64.generalPositional, hfixed, htext, n.dropTrailingZeros_text]
  · rw [hsize, size, Binary64.toFixed_exponent, zpow_neg, zpow_natCast, div_eq_mul_inv]

/-- The digits of a number rounded to significant digits: exactly as many. -/
theorem digits_toSignificant (hx : 0 < x.units) (p : Nat) :
    ∃ first ds, paddedDigits (p + 1) (x.toSignificant (p + 1)).coefficient = first :: ds ∧
      first < 10 ∧ AreDigits ds ∧ ds.length = p := by
  obtain ⟨hle, hlt⟩ := toSignificant_bounds hx p
  obtain ⟨first, ds, hds, -, hfirst, hrest, hlen⟩ := Scientific.exists_digits hle hlt
  exact ⟨first, ds, hds, hfirst, hrest, hlen⟩

/-- The exponential form is a lean scientific numeral: what is left of the
layout with all digits when the zeros at its end are dropped. -/
theorem generalExponential_eq (hx : 0 < x.units) (p : Nat) :
    ∃ n : Scientific, (x.toSignificant (p + 1)).scientificNotation (p + 1) 2 = n.text ∧
      x.generalExponential (p + 1) = n.strip.text ∧ n.negative = x.negative ∧
      n.exponent = x.generalExponent (p + 1) ∧ n.size = (x.toSignificant (p + 1)).size := by
  obtain ⟨hle, hlt⟩ := toSignificant_bounds hx p
  obtain ⟨n, htext, hmantissa, hsign, hexponent, hsize⟩ :=
    Scientific.scientificNotation_eq (x.toSignificant (p + 1)) hle hlt
  have hexponent : n.exponent = x.generalExponent (p + 1) := hexponent
  refine ⟨n, htext, ?_, hsign.trans (toSignificant_negative hx p), hexponent, hsize⟩
  rw [Binary64.generalExponential, hmantissa, n.dropTrailingZeros_mantissa, ← hsign, ← hexponent]
  rfl

theorem ofText?_generalExponential (hx : 0 < x.units) (p : Nat) :
    ∃ d, ofText? (x.generalExponential (p + 1)) = some d ∧ d.negative = x.negative ∧
      d.size = (x.toSignificant (p + 1)).size := by
  obtain ⟨n, -, htext, hsign, -, hsize⟩ := generalExponential_eq hx p
  obtain ⟨d, hd, ed, es⟩ := n.strip.ofText?_text
  exact ⟨d, by rw [htext, hd], ed.trans hsign, es.trans (n.size_strip.trans hsize)⟩

/-! ## The general notation -/

/-- Rounding may carry into the next digit in front. -/
theorem generalExponent_cases (hx : 0 < x.units) (p : Nat) :
    x.generalExponent (p + 1) = x.decimalExponent ∨
      x.generalExponent (p + 1) = x.decimalExponent + 1 := by
  obtain ⟨c, -, -, ⟨-, e⟩ | ⟨-, e⟩⟩ := toSignificant_cases hx p <;>
    simp only [Binary64.generalExponent, e, lastExponent] <;> omega

/-- The exponent is that of the leading digit after rounding. -/
theorem generalExponent_bounds (hx : 0 < x.units) (p : Nat) :
    (10 : ℚ) ^ x.generalExponent (p + 1) ≤ (x.toSignificant (p + 1)).size ∧
      (x.toSignificant (p + 1)).size < 10 ^ (x.generalExponent (p + 1) + 1) := by
  obtain ⟨hle, hlt⟩ := toSignificant_bounds hx p
  have e : x.generalExponent (p + 1) = p + (x.toSignificant (p + 1)).exponent := by
    rw [Binary64.generalExponent]
    omega
  have e' : x.generalExponent (p + 1) + 1 =
      (p + 1 : Nat) + (x.toSignificant (p + 1)).exponent := by omega
  rw [e', e, zpow_add₀ (by norm_num), zpow_add₀ (by norm_num), zpow_natCast, zpow_natCast, size]
  constructor
  · gcongr
    exact_mod_cast hle
  · gcongr
    exact_mod_cast hlt

/-- A number whose digits are all before or after the point is below the
cut-off of the positional form. -/
theorem exceedsFixed_of_generalExponent (hx : 0 < x.units) {p : Nat} (hp : p ≤ 20)
    (h : x.generalExponent (p + 1) ≤ p) : x.exceedsFixed = false := by
  have hexponent : x.decimalExponent < 21 := by
    have := generalExponent_cases hx p
    omega
  have hunits := (decimalExponent_lt_iff hx).mp hexponent
  refine exceedsFixed_eq_false_iff.mpr ⟨isFinite_of_units_pos hx, ?_⟩
  rw [inOnes, div_lt_iff₀ unitsPerOne_cast_pos] at hunits
  exact_mod_cast hunits

/-- The positional form, while the exponent allows it. -/
theorem generalText_eq_positional (hx : 0 < x.units) {p : Nat}
    (hlow : -4 ≤ x.generalExponent (p + 1)) (hhigh : x.generalExponent (p + 1) ≤ p) :
    x.generalText (p + 1) =
      x.generalPositional ((p + 1 : Nat) - 1 - x.generalExponent (p + 1)).toNat := by
  rw [Binary64.generalText, isZero_of_units_pos hx, isFinite_of_units_pos hx]
  simp only [Bool.false_eq_true, if_false, Bool.not_true]
  rw [if_neg (by omega)]

/-- Its last place is that of the last significant digit. -/
theorem exponent_toSignificant_eq {p : Nat} (hhigh : x.generalExponent (p + 1) ≤ p) :
    (x.toSignificant (p + 1)).exponent =
      -(((p + 1 : Nat) - 1 - x.generalExponent (p + 1)).toNat : ℤ) := by
  have hexponent : x.generalExponent (p + 1) =
      (x.toSignificant (p + 1)).exponent + (p + 1 : Nat) - 1 := rfl
  omega

/-- Below the cut-off it is what is left of the fixed notation. -/
theorem generalText_fixed (hx : 0 < x.units) (hfixed : x.exceedsFixed = false) {p : Nat}
    (hlow : -4 ≤ x.generalExponent (p + 1)) (hhigh : x.generalExponent (p + 1) ≤ p) :
    ∃ n : Plain, x.fixedText ((p + 1 : Nat) - 1 - x.generalExponent (p + 1)).toNat = n.text ∧
      x.generalText (p + 1) = n.strip.text ∧ n.negative = x.negative ∧
      n.size = (x.toSignificant (p + 1)).size ∧ n.strip.IsLean := by
  have hexponent := exponent_toSignificant_eq hhigh
  rw [generalText_eq_positional hx hlow hhigh]
  generalize ((p + 1 : Nat) - 1 - x.generalExponent (p + 1)).toNat = places at hexponent
  obtain ⟨n, htext, hdropped, hsign, hsize, hlean⟩ := generalPositional_eq hfixed places
  rw [← toSignificant_eq_toFixed hx hexponent] at hsign hsize
  refine ⟨n, htext, hdropped, hsign.trans (toSignificant_negative hx p), hsize, hlean ?_⟩
  rw [hsize]
  exact (size_toSignificant_pos hx p).ne'

/-- Up to 21 digits a number with that exponent is below the cut-off. -/
theorem generalText_positional (hx : 0 < x.units) {p : Nat} (hp : p ≤ 20)
    (hlow : -4 ≤ x.generalExponent (p + 1)) (hhigh : x.generalExponent (p + 1) ≤ p) :
    ∃ n : Plain, x.generalText (p + 1) = n.text ∧ n.negative = x.negative ∧
      n.size = (x.toSignificant (p + 1)).size ∧ n.IsLean := by
  obtain ⟨n, -, htext, hsign, hsize, hlean⟩ :=
    generalText_fixed hx (exceedsFixed_of_generalExponent hx hp hhigh) hlow hhigh
  exact ⟨n.strip, htext, hsign, n.size_strip.trans hsize, hlean⟩

/-- The exponential form, where it does not. -/
theorem generalText_exponential (hx : 0 < x.units) {p : Nat}
    (h : x.generalExponent (p + 1) < -4 ∨ p < x.generalExponent (p + 1)) :
    x.generalText (p + 1) = x.generalExponential (p + 1) := by
  rw [Binary64.generalText, isZero_of_units_pos hx, isFinite_of_units_pos hx]
  simp only [Bool.false_eq_true, if_false, Bool.not_true]
  rw [if_pos (by omega)]

/-- Read back, the general notation denotes the number rounded to the
significant digits asked for. -/
theorem ofText?_generalText (hx : 0 < x.units) {p : Nat} (hp : p ≤ 20) :
    ∃ d, ofText? (x.generalText (p + 1)) = some d ∧ d.negative = x.negative ∧
      d.size = (x.toSignificant (p + 1)).size := by
  by_cases h : x.generalExponent (p + 1) < -4 ∨ p < x.generalExponent (p + 1)
  · rw [generalText_exponential hx h]
    exact ofText?_generalExponential hx p
  · obtain ⟨n, htext, hsign, hsize, -⟩ :=
      generalText_positional hx hp (by omega) (by omega)
    obtain ⟨d, hd, ed, es⟩ := n.ofText?_text
    exact ⟨d, by rw [htext, hd], ed.trans hsign, es.trans hsize⟩

/-- An exponent is written from the first power of ten on that has more
digits than are kept. -/
theorem exponent_mem_generalText (hx : 0 < x.units) {p : Nat} (hp : p ≤ 20)
    (hlow : -4 ≤ x.generalExponent (p + 1)) :
    101 ∈ x.generalText (p + 1) ↔ 10 ^ (p + 1) ≤ (x.toSignificant (p + 1)).size := by
  obtain ⟨hle, hlt⟩ := generalExponent_bounds hx p
  rcases lt_or_ge (p : Int) (x.generalExponent (p + 1)) with h | h
  · refine iff_of_true ?_ ?_
    · rw [generalText_exponential hx (.inr h), Binary64.generalExponential]
      simp [exponentText]
    · refine le_trans ?_ hle
      rw [← zpow_natCast]
      exact zpow_le_zpow_right₀ (by norm_num) (by omega)
  · refine iff_of_false ?_ ?_
    · obtain ⟨n, htext, -⟩ := generalText_positional hx hp hlow h
      rw [htext]
      exact n.not_mem_text (by decide) (by decide) (by decide)
    · refine not_le_of_gt (hlt.trans_le ?_)
      rw [← zpow_natCast]
      exact zpow_le_zpow_right₀ (by norm_num) (by omega)

/-- The same with the sign, for any finite number. -/
theorem value_generalText (hx : x.isFinite = true) {p : Nat} (hp : p ≤ 20) :
    ∃ d, ofText? (x.generalText (p + 1)) = some d ∧ d.value = (x.toSignificant (p + 1)).value := by
  rcases Nat.eq_zero_or_pos x.units with h0 | hpos
  · have hzero := isZero_of_units_eq_zero hx h0
    have hread : ofText? [48] = some ⟨false, 0, 0⟩ := by decide
    refine ⟨_, by rw [Binary64.generalText_zero _ hzero, hread], ?_⟩
    rw [value_of_size_zero (size_toSignificant_of_units_eq_zero hx h0 (p + 1)),
      value_of_size_zero (by simp [size])]
  · obtain ⟨d, hd, hsign, hsize⟩ := ofText?_generalText hpos hp
    refine ⟨d, hd, ?_⟩
    rw [value, value, hsign, hsize, toSignificant_negative hpos]

/-! ## Order -/

/-- What is denoted keeps the order of numbers that are not negative. -/
theorem value_toSignificant_mono (hx : Binary64.zero ≤ x) (h : x ≤ y) (hy : y.isFinite = true)
    (p : Nat) : (x.toSignificant (p + 1)).value ≤ (y.toSignificant (p + 1)).value := by
  have hfinite := Binary64.isFinite_of_le hx h hy
  have hy0 := Binary64.le_trans hx h
  have hsign : ∀ z : Binary64, Binary64.zero ≤ z → z.isFinite = true →
      (z.toSignificant (p + 1)).value = (z.toSignificant (p + 1)).size ∧
        (z.units = 0 → (z.toSignificant (p + 1)).size = 0) := by
    intro z hz fz
    rcases Nat.eq_zero_or_pos z.units with h0 | hpos
    · have hzero := size_toSignificant_of_units_eq_zero fz h0 (p + 1)
      exact ⟨by rw [value_of_size_zero hzero, hzero], fun _ => hzero⟩
    · have hneg : z.negative = false :=
        Binary64.negative_eq_false hz (by rwa [← units_eq_magnitude fz])
      refine ⟨?_, fun h0 => absurd h0 (Nat.ne_of_gt hpos)⟩
      rw [value, toSignificant_negative hpos, hneg]
      rfl
  obtain ⟨ex, hx0⟩ := hsign x hx hfinite
  rw [ex, (hsign y hy0 hy).1]
  rcases Nat.eq_zero_or_pos x.units with h0 | hpos
  · rw [hx0 h0]
    exact size_nonneg _
  · refine size_toSignificant_mono hpos ?_ p
    rwa [units_eq_magnitude hfinite, units_eq_magnitude hy, ← Binary64.le_iff_magnitude hx hy0]

theorem isFinite_roundHalfEven (hx : x.isFinite = true) (places : Nat) :
    (x.roundHalfEven places).isFinite = true := by
  cases h : x.exceedsFixed with
  | true => rwa [Binary64.roundHalfEven_of_exceedsFixed h]
  | false =>
    have hle := magnitude_roundHalfEven_le h places
    rw [roundHalfEven_eq h] at hle ⊢
    cases hd : toBinary64 ⟨(x.toFixed places).negative, evenCoefficient places x, -places⟩ with
    | nan => exact absurd hd (toBinary64_ne_nan _)
    | infinite s =>
      rw [hd, Binary64.magnitude_infinite] at hle
      exact absurd hle (Nat.not_le_of_lt representable_cutOff.1)
    | finite s u hu => rfl

/-- **The ranking keeps the order of scores.** Of two scores the text of the
lesser one denotes no more than that of the greater one. -/
theorem scoreText_le (hx : Binary64.zero ≤ x) (h : x ≤ y) (hy : y.isFinite = true) :
    ∃ d d', ofText? (scoreText x) = some d ∧ ofText? (scoreText y) = some d' ∧
      d.value ≤ d'.value := by
  have hfinite := Binary64.isFinite_of_le hx h hy
  have hround := Binary64.roundHalfEven_le hx h 2
  obtain ⟨d, hd, ed⟩ := value_generalText (isFinite_roundHalfEven hfinite 2) (p := 5) (by decide)
  obtain ⟨d', hd', ed'⟩ := value_generalText (isFinite_roundHalfEven hy 2) (p := 5) (by decide)
  refine ⟨d, d', hd, hd', ?_⟩
  rw [ed, ed']
  exact value_toSignificant_mono (Binary64.roundHalfEven_nonneg hx 2) hround
    (isFinite_roundHalfEven hy 2) 5

end ContestGrading.Decimal
