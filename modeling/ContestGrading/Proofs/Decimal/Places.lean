import ContestGrading.Proofs.Decimal.General
import ContestGrading.Proofs.Decimal.NearestDouble
import ContestGrading.Proofs.Decimal.Whole
/-!
# Where rounding half to even is exact

Rounding half to even to a number of places is to give the double nearest to
the nearest multiple of the last place, an exact half going to the even one.
It does so with two exceptions. Without places an exact half goes away from
zero, also where the even integer is the other one. And from 42 places on a
number may stand above such a half by less than can be seen on the places on
which a half is judged; it is then taken for the half.

Results:
* `isNearestMagnitude_roundHalfEven`: the double is nearest to the coefficient.
* `evenCoefficient_cases`: when the coefficient is the nearest one.
* `isRoundedHalfEven_iff`: the specification on magnitudes.
* `rounded_of_half_lastPlace`: on the last place of all nothing is lost.
* `rounding_exact_iff`: exactly when the rounding is the specified one.
-/
namespace ContestGrading.Decimal

open Binary64 (unitsPerOne Representable IsNearestMagnitude expansionPlaces spacing)

variable {x r : Binary64} {places : Nat}

/-! ## The specification -/

/-- `r` is the double nearest to the multiple of the last place that is
nearest to `x`, an exact half going to the even multiple. -/
def IsRoundedHalfEven (places : Nat) (x r : Binary64) : Prop :=
  ∃ k : ℤ, IsNearestEven (x.value * 10 ^ places) k ∧ r.IsNearest (k / 10 ^ places)

/-- Half way between two integers of which the one nearer to zero is even. -/
def IsEvenHalf (q : ℚ) : Prop := ∃ m : Nat, Even m ∧ |q| = m + 1 / 2

/-- Further from zero than such a half, by less than `gap`. -/
def IsAboveEvenHalf (gap q : ℚ) : Prop :=
  ∃ m : Nat, Even m ∧ (m : ℚ) + 1 / 2 < |q| ∧ |q| < m + 1 / 2 + gap

/-! ## On magnitudes -/

theorem abs_value_mul_pow (x : Binary64) (places : Nat) :
    |x.value * 10 ^ places| = inOnes x.units * 10 ^ places := by
  rw [abs_mul, Binary64.abs_value, abs_of_nonneg (by positivity : (0 : ℚ) ≤ 10 ^ places)]

/-- A nearest integer has the sign of the number. -/
theorem isNearestEven_withSign (x : Binary64) {a : ℚ} (ha : 0 ≤ a) {k : ℤ} :
    IsNearestEven (x.withSign a) k ↔ ∃ c : Nat, (k : ℚ) = x.withSign c ∧ IsNearestEven a c := by
  unfold Binary64.withSign
  cases x.negative with
  | false =>
    simp only [Bool.false_eq_true, if_false]
    constructor
    · intro h
      obtain ⟨c, rfl⟩ := h.exists_nat ha
      exact ⟨c, Int.cast_natCast c, h⟩
    · rintro ⟨c, hk, h⟩
      obtain rfl : k = c := by exact_mod_cast hk
      exact h
  | true =>
    simp only [if_true]
    constructor
    · intro h
      have h := h.neg
      rw [neg_neg] at h
      obtain ⟨c, hc⟩ := h.exists_nat ha
      refine ⟨c, ?_, hc ▸ h⟩
      obtain rfl : k = -c := by omega
      push_cast
      rfl
    · rintro ⟨c, hk, h⟩
      obtain rfl : k = -c := by exact_mod_cast hk
      exact h.neg

theorem exists_int_withSign (x : Binary64) (c : Nat) : ∃ k : ℤ, (k : ℚ) = x.withSign c := by
  unfold Binary64.withSign
  split
  · exact ⟨-c, by push_cast; rfl⟩
  · exact ⟨c, by push_cast; rfl⟩

/-- Two doubles of one sign give it to a magnitude alike; zero has none. -/
theorem withSign_eq_withSign (hsign : x.isZero = false → r.negative = x.negative) {a : ℚ}
    (hzero : x.units = 0 → a = 0) : x.withSign a = r.withSign a := by
  cases h : x.isZero with
  | false => rw [Binary64.withSign, Binary64.withSign, hsign h]
  | true =>
    rw [hzero (units_eq_zero_of_isZero h), Binary64.withSign, Binary64.withSign, neg_zero,
      ite_self, ite_self]

theorem IsNearestEven.eq_zero {c : Nat} (h : IsNearestEven 0 c) : c = 0 := by
  have hzero : IsNearestEven 0 (0 : Nat) := by
    constructor <;> norm_num
  exact_mod_cast h.unique hzero

/-- For a rounding that keeps the sign, only magnitudes count. -/
theorem isRoundedHalfEven_iff (hx : x.isFinite = true) (hr : r.isFinite = true)
    (hsign : x.isZero = false → r.negative = x.negative) :
    IsRoundedHalfEven places x r ↔ ∃ c : Nat,
      IsNearestEven (inOnes x.units * 10 ^ places) c ∧
        IsNearestMagnitude (c / 10 ^ places) r.units := by
  have hvalue : x.value * 10 ^ places = x.withSign (inOnes x.units * 10 ^ places) := by
    rw [← Binary64.withSign_mul]
    exact congrArg (· * 10 ^ places) (value_eq_inOnes hx)
  have hpos := scaled_nonneg x places
  have hsame : ∀ c : Nat, IsNearestEven (inOnes x.units * 10 ^ places) c →
      x.withSign c / 10 ^ places = r.withSign (c / 10 ^ places) := by
    intro c hc
    rw [div_eq_mul_inv, Binary64.withSign_mul, ← div_eq_mul_inv]
    refine withSign_eq_withSign hsign fun hunits => ?_
    rw [hunits, inOnes_zero, zero_mul] at hc
    rw [hc.eq_zero, Nat.cast_zero, zero_div]
  unfold IsRoundedHalfEven
  rw [hvalue]
  constructor
  · rintro ⟨k, hk, hnear⟩
    obtain ⟨c, hkc, hc⟩ := (isNearestEven_withSign x hpos).mp hk
    rw [hkc, hsame c hc, Binary64.isNearest_iff hr (by positivity)] at hnear
    exact ⟨c, hc, hnear⟩
  · rintro ⟨c, hc, hnear⟩
    obtain ⟨k, hk⟩ := exists_int_withSign x c
    refine ⟨k, (isNearestEven_withSign x hpos).mpr ⟨c, hk, hc⟩, ?_⟩
    rw [hk, hsame c hc, Binary64.isNearest_iff hr (by positivity)]
    exact hnear

/-! ## The rounding -/

/-- The double is nearest to the coefficient that is read back. -/
theorem isNearestMagnitude_roundHalfEven (hx : x.exceedsFixed = false) (places : Nat) :
    IsNearestMagnitude (evenCoefficient places x / 10 ^ places)
      (x.roundHalfEven places).units := by
  have hfinite := isFinite_roundHalfEven (exceedsFixed_eq_false_iff.mp hx).1 places
  rw [roundHalfEven_eq hx] at hfinite ⊢
  have h := isNearestMagnitude_toBinary64 hfinite
  rwa [size, zpow_neg, zpow_natCast, ← div_eq_mul_inv] at h

/-! ## The coefficient -/

/-- On no places and on all of them no half is seen. -/
theorem evenCoefficient_of_extreme (h : places = 0 ∨ places = expansionPlaces) (x : Binary64) :
    evenCoefficient places x = (x.toFixed places).coefficient := by
  refine if_neg fun hseen => ?_
  rcases h with rfl | rfl
  · exact Nat.lt_irrefl 0 hseen.2.1
  · exact Nat.lt_irrefl _ hseen.1.1

/-- What is taken for a half goes down to the even coefficient. -/
theorem evenCoefficient_of_near {m : Nat} (heven : Even m) (h0 : 0 < places)
    (hp : places < expansionPlaces) (hlow : (m : ℚ) + 1 / 2 ≤ inOnes x.units * 10 ^ places)
    (hhigh : inOnes x.units * 10 ^ places < m + 1 / 2 + unseenGap places) :
    evenCoefficient places x = m := by
  obtain ⟨hseen, hkept⟩ := isHalfAt_of_near hlow hhigh hp
  rw [evenCoefficient, if_pos ⟨hseen, h0, by rw [hkept]; exact Nat.even_iff.mp heven⟩, hkept]

/-- How far the half that is seen is from the number. -/
theorem near_of_isHalfAt (h : x.isHalfAt places) :
    x.kept places + 1 / 2 - unseenGap places ≤ inOnes x.units * 10 ^ places ∧
      inOnes x.units * 10 ^ places < x.kept places + 1 / 2 + unseenGap places := by
  obtain ⟨k, hplaces, hexp⟩ := expansion_of_isHalfAt h
  obtain ⟨hge, hlt⟩ := expansion_nearest x
  have hplaces : (10 : ℚ) ^ expansionPlaces = 10 ^ places * (10 * 10 ^ k) := by
    exact_mod_cast hplaces
  have hten : (0 : ℚ) < 10 * 10 ^ k := by positivity
  have hgap : unseenGap places * (10 * 10 ^ k) = 1 / 2 := by
    rw [unseenGap, hplaces]
    field_simp
  rw [hexp, hplaces, ← mul_assoc] at hge hlt
  push_cast at hge hlt
  constructor
  · refine le_of_mul_le_mul_right ?_ hten
    linarith
  · refine lt_of_mul_lt_mul_right ?_ hten.le
    linarith

theorem unseenGap_le_half (hp : places ≤ expansionPlaces) : unseenGap places ≤ 1 / 2 := by
  have hpow : (10 : ℚ) ^ places ≤ 10 ^ expansionPlaces := pow_le_pow_right₀ (by norm_num) hp
  rw [unseenGap, div_le_div_iff₀ (by positivity) (by norm_num)]
  linarith

/-- The coefficient is the nearest one, but for a half that is not seen and a
number above a half that is not told from it. -/
theorem evenCoefficient_cases (x : Binary64) (hp : places ≤ expansionPlaces) :
    IsNearestEven (inOnes x.units * 10 ^ places) (evenCoefficient places x) ∨
      (places = 0 ∨ places = expansionPlaces) ∧
        (∃ m : Nat, Even m ∧ evenCoefficient places x = m + 1 ∧
          inOnes x.units * 10 ^ places = m + 1 / 2) ∨
      41 < places ∧ places < expansionPlaces ∧
        ∃ m : Nat, Even m ∧ (m : ℚ) + 1 / 2 < inOnes x.units * 10 ^ places ∧
          inOnes x.units * 10 ^ places < m + 1 / 2 + unseenGap places := by
  by_cases hextreme : places = 0 ∨ places = expansionPlaces
  · rw [evenCoefficient_of_extreme hextreme]
    exact ((toFixed_nearest places x).even_or_half (scaled_nonneg x places)).imp_right
      fun h => .inl ⟨hextreme, h⟩
  have h0 : 0 < places := by omega
  have hlt : places < expansionPlaces := by omega
  by_cases hseen : x.isHalfAt places ∧ 0 < places ∧ x.kept places % 2 = 0
  · have heven : Even (x.kept places) := Nat.even_iff.mpr hseen.2.2
    obtain ⟨hlow, hhigh⟩ := near_of_isHalfAt hseen.1
    have hgap := unseenGap_le_half hp
    rw [evenCoefficient, if_pos hseen]
    rcases le_or_gt (inOnes x.units * 10 ^ places) (x.kept places + 1 / 2) with hle | hgt
    · refine .inl ⟨?_, fun _ => by exact_mod_cast heven⟩
      rw [Int.cast_natCast, abs_le]
      constructor <;> linarith
    · refine .inr (.inr ⟨?_, hlt, x.kept places, heven, hgt, hhigh⟩)
      by_contra hfew
      exact hgt.ne' (half_of_isHalfAt hseen.1 (by omega))
  · rw [evenCoefficient, if_neg hseen]
    exact .inl (isNearestEven_toFixed h0 hlt hseen)

/-! ## Halves without places -/

/-- The integers around a half that is a double are doubles. -/
theorem lt_of_half {m : Nat} (h : inOnes x.units = m + 1 / 2) : m + 1 ≤ 2 ^ 53 := by
  have hone := Binary64.unitsPerOne_pos
  have hunits : 2 * x.units = (2 * m + 1) * unitsPerOne := by
    rw [inOnes, div_eq_iff unitsPerOne_cast_pos.ne'] at h
    have h : (2 : ℚ) * x.units = (2 * m + 1) * unitsPerOne := by
      rw [h]
      ring
    exact_mod_cast h
  have hodd : ¬ unitsPerOne ∣ x.units := by
    rintro ⟨k, hk⟩
    have hk : 2 * k * unitsPerOne = (2 * m + 1) * unitsPerOne := by
      rw [← hunits, hk]
      ring
    have := Nat.eq_of_mul_eq_mul_right hone hk
    omega
  obtain ⟨t, -, htu, ⟨j, hj⟩, hsize⟩ := exists_pow_dvd (representable_units x)
  rcases hsize with rfl | hsize
  · exact absurd htu hodd
  -- a proper divisor of one is at most half of it
  have hj2 : 2 ≤ j := by
    by_contra hj2
    rcases (by omega : j = 0 ∨ j = 1) with rfl | rfl
    · omega
    · rw [Nat.mul_one] at hj
      exact hodd (hj ▸ htu)
  have hlt : (2 * m + 1) * unitsPerOne < 2 ^ 53 * unitsPerOne := calc
    (2 * m + 1) * unitsPerOne = 2 * x.units := hunits.symm
    _ < 2 * (2 ^ 53 * t) := Nat.mul_lt_mul_of_pos_left hsize (by decide)
    _ = 2 ^ 53 * (t * 2) := by ring
    _ ≤ 2 ^ 53 * (t * j) := Nat.mul_le_mul_left _ (Nat.mul_le_mul_left t hj2)
    _ = 2 ^ 53 * unitsPerOne := by rw [← hj]
  have := Nat.lt_of_mul_lt_mul_right hlt
  omega

/-- Without places such a half goes to the odd integer above, and not to the
even one. -/
theorem not_rounded_of_half {m c : Nat} (hx : x.exceedsFixed = false) (heven : Even m)
    (h : inOnes x.units = m + 1 / 2) (hc : IsNearestEven (inOnes x.units * 10 ^ 0) c) :
    ¬ IsNearestMagnitude (c / 10 ^ 0) (x.roundHalfEven 0).units := by
  intro hnear
  have hle := lt_of_half h
  have hcoefficient : evenCoefficient 0 x = m + 1 := by
    rw [evenCoefficient_of_extreme (.inl rfl)]
    refine (toFixed_nearest 0 x).unique ?_
    rw [h, IsNearestUp]
    push_cast
    constructor <;> linarith
  have hup := isNearestMagnitude_roundHalfEven hx 0
  rw [hcoefficient, pow_zero, div_one, ← inOnes_mul_unitsPerOne] at hup
  rw [pow_zero, mul_one, h] at hc
  obtain rfl : c = m := by exact_mod_cast hc.unique (isNearestEven_of_half heven)
  rw [pow_zero, div_one, ← inOnes_mul_unitsPerOne] at hnear
  -- both integers are doubles, and each would be the result
  have hself := hnear.eq_of_between hnear
    (Binary64.representable_mul_unitsPerOne (by omega)) le_rfl le_rfl
  have hnext := hup.eq_of_between hup
    (Binary64.representable_mul_unitsPerOne hle) le_rfl le_rfl
  have := Nat.eq_of_mul_eq_mul_right Binary64.unitsPerOne_pos (hself.symm.trans hnext)
  omega

/-! ## Numbers above a half -/

section AboveHalf

variable {m : Nat}

/-- A number that is taken for the half below it is rounded right exactly if
it is its own rounding. -/
theorem rounded_iff_of_above (hx : x.exceedsFixed = false) (heven : Even m) (h0 : 0 < places)
    (hp : places < expansionPlaces) (hlow : (m : ℚ) + 1 / 2 < inOnes x.units * 10 ^ places)
    (hhigh : inOnes x.units * 10 ^ places < m + 1 / 2 + unseenGap places) :
    (∃ c : Nat, IsNearestEven (inOnes x.units * 10 ^ places) c ∧
        IsNearestMagnitude (c / 10 ^ places) (x.roundHalfEven places).units) ↔
      (x.roundHalfEven places).units = x.units := by
  have hgap := unseenGap_le_half hp.le
  have hten : (0 : ℚ) < 10 ^ places := by positivity
  have hdown := isNearestMagnitude_roundHalfEven hx places
  rw [evenCoefficient_of_near heven h0 hp hlow.le hhigh] at hdown
  have hup := isNearestEven_of_above hlow (by linarith)
  have hbelow : (m : ℚ) / 10 ^ places < inOnes x.units := by
    rw [div_lt_iff₀ hten]
    linarith
  have habove : inOnes x.units ≤ (m + 1 : Nat) / 10 ^ places := by
    rw [le_div_iff₀ hten]
    push_cast
    linarith
  constructor
  · rintro ⟨c, hc, hnear⟩
    obtain rfl : c = m + 1 := by exact_mod_cast hc.unique hup
    exact hdown.eq_of_between hnear (representable_units x) hbelow.le habove
  · intro hself
    rw [hself] at hdown ⊢
    refine ⟨m + 1, hup, hdown.of_above (by positivity) hbelow habove ?_⟩
    have hupper : ((m + 1 : Nat) : ℚ) / 10 ^ places + m / 10 ^ places =
        (2 * m + 1) / 10 ^ places := by
      push_cast
      ring
    have hmiddle : ((2 * m + 1 : ℚ)) / 10 ^ places < 2 * inOnes x.units := by
      rw [div_lt_iff₀ hten]
      linarith
    linarith

end AboveHalf

/-! ## Halves on the last place -/

/-- A half on the last place is a multiple of `2 ^ -101` that is not less, and
so the doubles around it are far apart. -/
theorem lt_spacing_of_half {m : Nat} (h : inOnes x.units * 10 ^ expansionPlaces = m + 1 / 2) :
    2 * unitsPerOne < spacing x.units * 10 ^ expansionPlaces := by
  have hplaces : (10 : Nat) ^ expansionPlaces = 2 ^ 100 * 5 ^ 100 := by decide +kernel
  have hunits : 2 * 10 ^ expansionPlaces * x.units = (2 * m + 1) * unitsPerOne := by
    rw [inOnes, div_mul_eq_mul_div, div_eq_iff unitsPerOne_cast_pos.ne'] at h
    have h : (2 : ℚ) * 10 ^ expansionPlaces * x.units = (2 * m + 1) * unitsPerOne := by
      linarith
    exact_mod_cast h
  -- the odd factor of ten divides the odd number of halves
  have hfive : 5 ^ 100 ≤ 2 * m + 1 := by
    have hcoprime : Nat.Coprime (5 ^ 100) unitsPerOne := by
      rw [Binary64.unitsPerOne_eq_pow]
      exact Nat.Coprime.pow _ _ (by decide)
    refine Nat.le_of_dvd (Nat.succ_pos _) (hcoprime.dvd_of_dvd_mul_right ?_)
    rw [← hunits, hplaces]
    exact ⟨2 * 2 ^ 100 * x.units, by ring⟩
  have hlarge : unitsPerOne ≤ 2 ^ 101 * x.units := by
    have hle : 5 ^ 100 * unitsPerOne ≤ 2 * 10 ^ expansionPlaces * x.units :=
      hunits ▸ Nat.mul_le_mul_right _ hfive
    rw [hplaces] at hle
    refine Nat.le_of_mul_le_mul_left (c := 5 ^ 100) ?_ (Nat.pow_pos (by decide))
    calc 5 ^ 100 * unitsPerOne ≤ 2 * (2 ^ 100 * 5 ^ 100) * x.units := hle
      _ = 5 ^ 100 * (2 ^ 101 * x.units) := by ring
  obtain ⟨e, hone, hcoarse⟩ : ∃ e, unitsPerOne = 2 ^ 101 * 2 ^ (52 + e) ∧
      2 * unitsPerOne < 2 ^ e * 10 ^ expansionPlaces := ⟨921, by decide +kernel, by decide +kernel⟩
  have hunits : 2 ^ (52 + e) ≤ x.units :=
    Nat.le_of_mul_le_mul_left (hone ▸ hlarge) (Nat.two_pow_pos 101)
  have hlog : 52 + e ≤ x.units.log2 :=
    (Nat.le_log2 (Nat.ne_of_gt (Nat.lt_of_lt_of_le (Nat.two_pow_pos _) hunits))).mpr hunits
  have hspacing : 2 ^ e ≤ spacing x.units := by
    rw [Binary64.spacing_eq]
    exact Nat.pow_le_pow_right (by decide) (by omega)
  exact hcoarse.trans_le (Nat.mul_le_mul_right _ hspacing)

/-- There the number is its own rounding, to either side. -/
theorem rounded_of_half_lastPlace {m : Nat} (hx : x.exceedsFixed = false) (heven : Even m)
    (h : inOnes x.units * 10 ^ expansionPlaces = m + 1 / 2) :
    ∃ c : Nat, IsNearestEven (inOnes x.units * 10 ^ expansionPlaces) c ∧
      IsNearestMagnitude (c / 10 ^ expansionPlaces) (x.roundHalfEven expansionPlaces).units := by
  have hten : (0 : ℚ) < 10 ^ expansionPlaces := by positivity
  have hspacing : 2 / (10 : ℚ) ^ expansionPlaces < inOnes (spacing x.units) := by
    rw [inOnes, div_lt_div_iff₀ hten unitsPerOne_cast_pos]
    exact_mod_cast lt_spacing_of_half h
  have hclose : ∀ c : ℚ, |c - (m + 1 / 2)| = 1 / 2 →
      4 * |c / 10 ^ expansionPlaces - inOnes x.units| < inOnes (spacing x.units) := by
    intro c hc
    have hdistance : |c / 10 ^ expansionPlaces - inOnes x.units| = 1 / 2 / 10 ^ expansionPlaces := by
      rw [← hc, ← h, ← abs_of_pos hten, ← abs_div, abs_of_pos hten, sub_div,
        mul_div_cancel_right₀ _ hten.ne']
    rw [hdistance]
    linarith [show (4 : ℚ) * (1 / 2 / 10 ^ expansionPlaces) = 2 / 10 ^ expansionPlaces by ring]
  have hself : (x.roundHalfEven expansionPlaces).units = x.units := by
    have hcoefficient : evenCoefficient expansionPlaces x = m + 1 := by
      rw [evenCoefficient_of_extreme (.inr rfl)]
      refine (toFixed_nearest expansionPlaces x).unique ?_
      rw [h, IsNearestUp]
      push_cast
      constructor <;> linarith
    have hup := isNearestMagnitude_roundHalfEven hx expansionPlaces
    rw [hcoefficient] at hup
    refine (Binary64.isNearestMagnitude_iff_of_close (representable_units x) (hclose _ ?_)).mp hup
    push_cast
    rw [abs_of_nonneg (by linarith)]
    ring
  refine ⟨m, ?_, ?_⟩
  · rw [h]
    exact isNearestEven_of_half heven
  · refine (Binary64.isNearestMagnitude_iff_of_close (representable_units x) (hclose _ ?_)).mpr hself
    rw [abs_of_nonpos (by linarith)]
    ring

/-! ## The places -/

/-- A whole number of places is one to round to. -/
theorem roundTo?_ofNat (hx : x.exceedsFixed = false) (hp : places ≤ 100) :
    Binary64.roundTo? (.ofNat places) x = some (x.roundHalfEven places) := by
  have hlt : places < 2 ^ 53 := by omega
  rw [Binary64.roundTo?_of_isInteger (Binary64.isInteger_ofNat hlt), Binary64.truncate_ofNat hlt,
    Binary64.halfEven?, if_neg (by simp [hx]), if_pos (by omega), Int.toNat_natCast]

/-- Doubles of one sign have the same value if they have the same magnitude. -/
theorem value_eq_iff (hx : x.isFinite = true) (hr : r.isFinite = true)
    (hsign : x.isZero = false → r.negative = x.negative) :
    r.value = x.value ↔ r.units = x.units := by
  constructor
  · intro h
    have := congrArg (|·|) h
    rw [Binary64.abs_value, Binary64.abs_value] at this
    exact inOnes_injective this
  · intro h
    have hwith : x.withSign (inOnes x.units) = r.withSign (inOnes x.units) :=
      withSign_eq_withSign hsign fun hunits => by rw [hunits, inOnes_zero]
    rw [Binary64.value_eq_withSign hr, Binary64.value_eq_withSign hx, h, hwith]

/-- **Rounding half to even.** For a number below `1e21` and 0 to 100 places,
the result is the double nearest to the multiple of the last place that is
nearest to the number, an exact half going to the even multiple, with two
exceptions: no places and a half whose even neighbour is nearer to zero; and
from 42 to 99 places a number so little above such a half that the places on
which a half is judged do not show it, unless it is its own rounding. -/
theorem rounding_exact_iff (hx : x.isFinite = true) (h : |x.value| < 10 ^ 21)
    (hp : places ≤ 100) :
    ∃ r, Binary64.roundTo? (.ofNat places) x = some r ∧
      (IsRoundedHalfEven places x r ↔
        ¬ (places = 0 ∧ IsEvenHalf x.value) ∧
          ¬ (41 < places ∧ places < 100 ∧
              IsAboveEvenHalf (unseenGap places) (x.value * 10 ^ places) ∧
              r.value ≠ x.value)) := by
  have hfixed : x.exceedsFixed = false := by
    rw [← Bool.not_eq_true, exceedsFixed_iff_abs_value hx, not_le]
    exact h
  have hsign : x.isZero = false → (x.roundHalfEven places).negative = x.negative := by
    intro h0
    rw [negative_roundHalfEven hfixed, h0]
    simp
  have hr := isFinite_roundHalfEven hx places
  refine ⟨x.roundHalfEven places, roundTo?_ofNat hfixed hp, ?_⟩
  rw [isRoundedHalfEven_iff hx hr hsign, ne_eq, value_eq_iff hx hr hsign]
  unfold IsEvenHalf IsAboveEvenHalf
  rw [abs_value_mul_pow, Binary64.abs_value]
  constructor
  · rintro ⟨c, hc, hnear⟩
    refine ⟨?_, ?_⟩
    · rintro ⟨rfl, m, heven, hhalf⟩
      exact not_rounded_of_half hfixed heven hhalf hc hnear
    · rintro ⟨hfew, hlt, ⟨m, heven, hlow, hhigh⟩, hne⟩
      exact hne ((rounded_iff_of_above hfixed heven (by omega) hlt hlow hhigh).mp ⟨c, hc, hnear⟩)
  · rintro ⟨hhalf, habove⟩
    rcases evenCoefficient_cases x hp with hc | ⟨hextreme, m, heven, -, hm⟩ |
      ⟨hfew, hlt, m, heven, hlow, hhigh⟩
    · exact ⟨_, hc, isNearestMagnitude_roundHalfEven hfixed places⟩
    · rcases hextreme with rfl | rfl
      · rw [pow_zero, mul_one] at hm
        exact absurd ⟨rfl, m, heven, hm⟩ hhalf
      · exact rounded_of_half_lastPlace hfixed heven hm
    · refine (rounded_iff_of_above hfixed heven (by omega) hlt hlow hhigh).mpr ?_
      by_contra hne
      exact habove ⟨hfew, hlt, ⟨m, heven, hlow, hhigh⟩, hne⟩

/-- An eighth below zero, half way between two hundredths. -/
def minusEighth : Binary64 := toBinary64 ⟨true, 125, -3⟩

theorem rounding_exact_iff_minusEighth :
    minusEighth.isFinite = true ∧ |minusEighth.value| < 10 ^ 21 ∧ 2 ≤ 100 ∧
      Binary64.roundTo? (.ofNat 2) minusEighth = some (toBinary64 ⟨true, 12, -2⟩) ∧
      IsRoundedHalfEven 2 minusEighth (toBinary64 ⟨true, 12, -2⟩) := by
  have hfinite : minusEighth.isFinite = true := by decide +kernel
  have hlt : |minusEighth.value| < 10 ^ 21 := by
    rw [← not_le, ← exceedsFixed_iff_abs_value hfinite]
    decide +kernel
  have hround : Binary64.roundTo? (.ofNat 2) minusEighth = some (toBinary64 ⟨true, 12, -2⟩) := by
    decide +kernel
  obtain ⟨r, hr, hiff⟩ := rounding_exact_iff hfinite hlt (by decide : 2 ≤ 100)
  obtain rfl := Option.some.inj (hround.symm.trans hr)
  refine ⟨hfinite, hlt, by decide, hround, hiff.mpr ⟨?_, ?_⟩⟩
  · exact fun h => absurd h.1 (by decide)
  · exact fun h => absurd h.1 (by decide)

/-! ## The two exceptions -/

def twoAndHalf : Binary64 := toBinary64 ⟨false, 25, -1⟩

theorem inOnes_twoAndHalf : inOnes twoAndHalf.units = (2 : Nat) + 1 / 2 := by
  have hunits : 2 * twoAndHalf.units = 5 * unitsPerOne := by decide +kernel
  have hunits : (2 : ℚ) * twoAndHalf.units = 5 * unitsPerOne := by exact_mod_cast hunits
  rw [inOnes, div_eq_iff unitsPerOne_cast_pos.ne']
  push_cast
  linarith

/-- The double nearest to `5e-100`, which is above it. -/
def hundredthPlace : Binary64 := toBinary64 ⟨false, 5, -100⟩

theorem inOnes_hundredthPlace :
    ((0 : Nat) : ℚ) + 1 / 2 < inOnes hundredthPlace.units * 10 ^ 99 ∧
      inOnes hundredthPlace.units * 10 ^ 99 < (0 : Nat) + 1 / 2 + unseenGap 99 := by
  have hone := unitsPerOne_cast_pos
  have hlow : unitsPerOne < 2 * (hundredthPlace.units * 10 ^ 99) := by decide +kernel
  have hhigh : 20 * (hundredthPlace.units * 10 ^ 99) < 11 * unitsPerOne := by decide +kernel
  have hlow : (unitsPerOne : ℚ) < 2 * (hundredthPlace.units * 10 ^ 99) := by exact_mod_cast hlow
  have hhigh : (20 : ℚ) * (hundredthPlace.units * 10 ^ 99) < 11 * unitsPerOne := by
    exact_mod_cast hhigh
  have hgap : unseenGap 99 = 1 / 20 := by
    rw [unseenGap, expansionPlaces]
    norm_num
  rw [hgap, inOnes, div_mul_eq_mul_div, lt_div_iff₀ hone, div_lt_iff₀ hone]
  constructor
  · push_cast
    linarith
  · push_cast
    linarith

/-- A half without places goes to the odd integer, and to 99 places a number
above a half is rounded to zero. -/
theorem halves_misrounded :
    Binary64.roundTo? (.ofNat 0) twoAndHalf = some (.ofNat 3) ∧
      ¬ IsRoundedHalfEven 0 twoAndHalf (.ofNat 3) ∧
      Binary64.roundTo? (.ofNat 99) hundredthPlace = some .zero ∧
      ¬ IsRoundedHalfEven 99 hundredthPlace .zero := by
  refine ⟨by decide +kernel, ?_, by decide +kernel, ?_⟩
  · have hself : (.ofNat 3 : Binary64) = twoAndHalf.roundHalfEven 0 := by decide +kernel
    rw [hself, isRoundedHalfEven_iff (by decide +kernel) (by decide +kernel) (by decide +kernel)]
    rintro ⟨c, hc, hnear⟩
    exact not_rounded_of_half (by decide +kernel) even_two inOnes_twoAndHalf hc hnear
  · have hself : Binary64.zero = hundredthPlace.roundHalfEven 99 := by decide +kernel
    obtain ⟨hlow, hhigh⟩ := inOnes_hundredthPlace
    rw [hself, isRoundedHalfEven_iff (by decide +kernel) (by decide +kernel) (by decide +kernel),
      rounded_iff_of_above (by decide +kernel) Even.zero (by decide) (by decide) hlow hhigh]
    decide +kernel

end ContestGrading.Decimal
