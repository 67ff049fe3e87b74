import ContestGrading.Proofs.Decimal.Places
/-!
# Rounding what is rounded

A rounded number is the double nearest to a multiple of the last place, and
not that multiple itself. Rounding it once more gives the same number all the
same, for every number and 0 to 98 or 100 places. With 99 places there are
numbers that drift: the double that they are rounded to lies so far below the
multiple that it reads as a half above the multiple before.

Results:
* `evenCoefficient_bounds`: how far a number is from its coefficient.
* `coefficient_stable_of_lt`: a number that is rounded up is stable.
* `drifts_of_coefficient_ne`, `DriftsTo.units_ne`: which numbers are not.
* `sameNumber_roundHalfEven_iff`: exactly which roundings are stable.
-/
namespace ContestGrading.Decimal

open Binary64 (unitsPerOne Representable IsNearestMagnitude expansionPlaces spacing)

variable {x : Binary64} {places : Nat}

/-! ## How far the coefficient is -/

/-- A number is at least its coefficient less a half, and below the
coefficient and a half unless it is taken for a half above an even one. -/
theorem evenCoefficient_bounds (places : Nat) (x : Binary64) :
    evenCoefficient places x ≤ inOnes x.units * 10 ^ places + 1 / 2 ∧
      (inOnes x.units * 10 ^ places < evenCoefficient places x + 1 / 2 ∨
        (0 < places ∧ places < expansionPlaces) ∧ Even (evenCoefficient places x) ∧
          inOnes x.units * 10 ^ places < evenCoefficient places x + 1 / 2 + unseenGap places) := by
  by_cases h : x.isHalfAt places ∧ 0 < places ∧ x.kept places % 2 = 0
  · rw [evenCoefficient, if_pos h]
    obtain ⟨hlow, hhigh⟩ := near_of_isHalfAt h.1
    have hgap := unseenGap_le_half h.1.1.le
    exact ⟨by linarith, .inr ⟨⟨h.2.1, h.1.1⟩, Nat.even_iff.mpr h.2.2, hhigh⟩⟩
  · rw [evenCoefficient, if_neg h]
    obtain ⟨hlow, hhigh⟩ := toFixed_nearest places x
    exact ⟨by linarith, .inl hhigh⟩

/-- The nearest magnitude, in units of the last place. -/
theorem distance_scaled {c : ℚ} {u v : Nat} (h : IsNearestMagnitude (c / 10 ^ places) u)
    (hv : Representable v) : |c - inOnes u * 10 ^ places| ≤ |c - inOnes v * 10 ^ places| := by
  have hten : (0 : ℚ) < 10 ^ places := by positivity
  have hscale (w : Nat) :
      |c - inOnes w * 10 ^ places| = |c / 10 ^ places - inOnes w| * 10 ^ places := by
    conv_rhs => rw [← abs_of_pos hten, ← abs_mul, abs_of_pos hten, sub_mul,
      div_mul_cancel₀ _ hten.ne']
  rw [hscale, hscale]
  exact mul_le_mul_of_nonneg_right (h.nearest v hv) hten.le

theorem inOnes_add_mul (u v : Nat) (a : ℚ) :
    inOnes (u + v) * a = inOnes u * a + inOnes v * a := by
  rw [inOnes_add, add_mul]

/-! ## Rounded up -/

/-- No two doubles are one unit of a decimal place apart. -/
theorem places_eq_zero_of_step {u v : Nat}
    (h : inOnes v * 10 ^ places - inOnes u * 10 ^ places = 1) : places = 0 := by
  by_contra h0
  have hone := unitsPerOne_cast_pos
  have hunits : (v : ℚ) * 10 ^ places = u * 10 ^ places + unitsPerOne := by
    rw [inOnes, inOnes, div_mul_eq_mul_div, div_mul_eq_mul_div, ← sub_div,
      div_eq_one_iff_eq hone.ne'] at h
    linarith
  have hunits : v * 10 ^ places = u * 10 ^ places + unitsPerOne := by exact_mod_cast hunits
  have hten : 10 ^ places ∣ unitsPerOne :=
    (Nat.dvd_add_right (Nat.dvd_mul_left ..)).mp (hunits ▸ Nat.dvd_mul_left ..)
  have hfive : 5 ∣ unitsPerOne :=
    (Dvd.dvd.trans (by decide : 5 ∣ 10) (dvd_pow_self 10 h0)).trans hten
  have hcoprime : Nat.Coprime 5 unitsPerOne := by
    rw [Binary64.unitsPerOne_eq_pow]
    exact Nat.Coprime.pow_right _ (by decide)
  exact absurd (hcoprime.eq_one_of_dvd hfive) (by decide)

/-- A number that is rounded up keeps its coefficient. -/
theorem coefficient_stable_of_lt (hx : x.exceedsFixed = false)
    (hlt : x.units < (x.roundHalfEven places).units) :
    evenCoefficient places (x.roundHalfEven places) = evenCoefficient places x := by
  have hnearest := isNearestMagnitude_roundHalfEven hx places
  generalize x.roundHalfEven places = r at hlt hnearest ⊢
  have hmono := evenCoefficient_mono hlt.le places
  by_contra hne
  have hnext : evenCoefficient places x + 1 ≤ evenCoefficient places r := by omega
  have hnext : (evenCoefficient places x : ℚ) + 1 ≤ evenCoefficient places r := by
    exact_mod_cast hnext
  have hb := (evenCoefficient_bounds places r).1
  have ha := (evenCoefficient_bounds places x).1
  have hten : (0 : ℚ) < 10 ^ places := by positivity
  have hab : inOnes x.units * 10 ^ places < inOnes r.units * 10 ^ places :=
    mul_lt_mul_of_pos_right (inOnes_lt_inOnes.mpr hlt) hten
  have hdistance := distance_scaled hnearest (representable_units x)
  rw [abs_of_nonpos (by linarith)] at hdistance
  -- half a unit below the coefficient and half a unit above it
  have hhalf : inOnes x.units * 10 ^ places = evenCoefficient places x - 1 / 2 ∧
      inOnes r.units * 10 ^ places = evenCoefficient places x + 1 / 2 := by
    rcases abs_choice (evenCoefficient places x - inOnes x.units * 10 ^ places) with e | e
    · rw [e] at hdistance
      constructor <;> linarith
    · rw [e] at hdistance
      linarith
  obtain rfl : places = 0 := places_eq_zero_of_step (u := x.units) (v := r.units) (by linarith)
  -- without places the coefficient is a double itself
  obtain ⟨m, hm⟩ : ∃ m, evenCoefficient 0 x = m + 1 := by
    have hpos := inOnes_nonneg x.units
    refine Nat.exists_eq_succ_of_ne_zero fun h0 => ?_
    rw [h0] at hhalf
    push_cast at hhalf
    linarith
  rw [hm] at hhalf hdistance hnearest
  push_cast at hhalf
  have hle := lt_of_half (x := x) (m := m) (by linarith)
  have hself := distance_scaled hnearest (Binary64.representable_mul_unitsPerOne hle)
  rw [inOnes_mul_unitsPerOne, hhalf.2] at hself
  norm_num at hself

/-! ## Rounded down -/

/-- Between magnitudes that are a unit apart, by less than a tenth more or
less, there is no other. -/
theorem eq_add_spacing {c gap : ℚ} {u v : Nat} (hu : Representable u) (hv : Representable v)
    (hlt : u < v) (hnearest : ∀ w, Representable w →
      |c - inOnes u * 10 ^ places| ≤ |c - inOnes w * 10 ^ places|)
    (hgap : gap ≤ 1 / 20) (hlow : 1 / 2 - gap < c - inOnes u * 10 ^ places)
    (hhigh : inOnes v * 10 ^ places < c + 1 / 2 + gap) : v = u + spacing u := by
  by_contra hne
  have hten : (0 : ℚ) ≤ 10 ^ places := by positivity
  have hnext := Binary64.add_spacing_le hu hv hlt
  have hw : Representable (u + spacing u) := by
    obtain ⟨k, hk, hmul⟩ := Binary64.exists_mul_spacing hu
    have hsum : u + spacing u = (k + 1) * spacing u := by rw [Nat.succ_mul, ← hmul]
    rw [hsum] at hnext ⊢
    rw [Binary64.spacing_eq] at hnext ⊢
    exact Binary64.representable_mul_pow hk (Nat.lt_of_le_of_lt hnext hv.1)
  have hafter := Binary64.add_spacing_le hw hv (by omega)
  have hcoarser : spacing u ≤ spacing (u + spacing u) :=
    Nat.le_of_dvd (Binary64.spacing_pos _) (Binary64.spacing_dvd_spacing (Nat.le_add_right _ _))
  -- on the scale of the last place
  have hstep := inOnes_add_mul u (spacing u) (10 ^ places)
  have hlast : inOnes (u + spacing u) * 10 ^ places + inOnes (spacing u) * 10 ^ places ≤
      inOnes v * 10 ^ places := by
    rw [← inOnes_add_mul]
    exact mul_le_mul_of_nonneg_right (inOnes_le_inOnes.mpr (by omega)) hten
  have hpos : 0 < inOnes (spacing u) * 10 ^ places :=
    mul_pos (inOnes_zero ▸ inOnes_lt_inOnes.mpr (Binary64.spacing_pos u)) (by positivity)
  have hdistance := hnearest _ hw
  rw [abs_of_nonneg (by linarith)] at hdistance
  rcases abs_choice (c - inOnes (u + spacing u) * 10 ^ places) with e | e <;>
    (rw [e] at hdistance; linarith)

/-- A power of ten that is so near to a power of two. -/
theorem powers_apart : ∀ places < 100, 0 < places →
    2 ^ (10 ^ places).log2 * 10 ^ 100 + 10 ^ places * 2 ^ (10 ^ places).log2 ≤
      10 ^ places * 10 ^ 100 ∧
    (places = 99 ∧ (10 ^ places).log2 = 328 ∨
      10 ^ places * 10 ^ 100 + 10 ^ places * 2 ^ ((10 ^ places).log2 + 1) ≤
        2 ^ ((10 ^ places).log2 + 1) * 10 ^ 100) := by
  decide +kernel

/-- A spacing that is nearly a unit of a decimal place. -/
theorem places_of_step {e : Nat} (h0 : 0 < places) (hp : places < 100)
    (hlow : unitsPerOne * 10 ^ 100 < 2 ^ e * 10 ^ places * 10 ^ 100 + 10 ^ places * unitsPerOne)
    (hhigh : 2 ^ e * 10 ^ places * 10 ^ 100 < unitsPerOne * 10 ^ 100 + 10 ^ places * unitsPerOne) :
    places = 99 ∧ unitsPerOne = 2 ^ e * 2 ^ 329 := by
  obtain ⟨n, hone⟩ : ∃ n, unitsPerOne = 2 ^ n := ⟨_, Binary64.unitsPerOne_eq_pow⟩
  have htenth : 10 * 10 ^ places ≤ 10 ^ 100 := by
    rw [← Nat.pow_succ']
    exact Nat.pow_le_pow_right (by decide) hp
  have hten : 0 < 10 ^ places := Nat.pow_pos (by decide)
  have hself : 2 ^ (10 ^ places).log2 ≤ 10 ^ places := Nat.log2_self_le hten.ne'
  have hlog : 10 ^ places < 2 ^ ((10 ^ places).log2 + 1) := Nat.lt_log2_self
  obtain ⟨habove, hbelow⟩ := powers_apart places hp h0
  generalize (10 ^ places).log2 = k at *
  generalize 10 ^ places = ten at *
  generalize 10 ^ 100 = all at *
  rw [hone] at hlow hhigh ⊢
  -- the spacing is no more than one, so one is a power of two as many times
  have he : e ≤ n := by
    by_contra he
    have hlarge : 2 * 2 ^ n ≤ 2 ^ e := by
      rw [← Nat.pow_succ']
      exact Nat.pow_le_pow_right (by decide) (by omega)
    have h1 := Nat.mul_le_mul_right (ten * all) hlarge
    have h2 : 2 ^ n * all * 1 ≤ 2 ^ n * all * ten := Nat.mul_le_mul_left _ hten
    have h3 : ten * 2 ^ n * 1 ≤ ten * 2 ^ n * all := Nat.mul_le_mul_left _ (by omega)
    linarith
  obtain ⟨j, rfl⟩ : ∃ j, n = e + j := ⟨n - e, by omega⟩
  rw [Nat.pow_add] at hlow hhigh ⊢
  have hlow : 2 ^ j * all < ten * all + ten * 2 ^ j := by
    refine Nat.lt_of_mul_lt_mul_left (a := 2 ^ e) ?_
    linarith
  have hhigh : ten * all < 2 ^ j * all + ten * 2 ^ j := by
    refine Nat.lt_of_mul_lt_mul_left (a := 2 ^ e) ?_
    linarith
  -- that number is one of the two powers around the power of ten
  have hsmall := Nat.mul_le_mul_right (2 ^ j) htenth
  have hall : 0 < all := by omega
  have hk : k < j + 1 := by
    refine (Nat.pow_lt_pow_iff_right (a := 2) (by decide)).mp (hself.trans_lt ?_)
    refine Nat.lt_of_mul_lt_mul_right (a := all) ?_
    rw [Nat.pow_succ]
    linarith
  have hj : j < k + 2 := by
    refine (Nat.pow_lt_pow_iff_right (a := 2) (by decide)).mp ?_
    refine Nat.lt_of_mul_lt_mul_right (a := all) ?_
    have := Nat.mul_lt_mul_of_pos_right hlog hall
    rw [Nat.pow_succ] at this ⊢
    rw [Nat.pow_succ]
    linarith
  rcases (by omega : j = k ∨ j = k + 1) with rfl | rfl
  · omega
  · rcases hbelow with ⟨h99, h328⟩ | hbelow
    · have h329 : k + 1 = 329 := by omega
      exact ⟨h99, congrArg (fun i => 2 ^ e * 2 ^ i) h329⟩
    · omega

theorem unseenGap_le (hp : places < expansionPlaces) : unseenGap places ≤ 1 / 20 := by
  have hpow : (10 : ℚ) ^ places * 10 ≤ 10 ^ expansionPlaces := by
    rw [← pow_succ]
    exact pow_le_pow_right₀ (by norm_num) hp
  rw [unseenGap, div_le_div_iff₀ (by positivity) (by norm_num)]
  linarith

theorem unseenGap_lastButOne : unseenGap 99 = 1 / 20 := by
  rw [unseenGap, expansionPlaces]
  norm_num

/-! ## Numbers that drift -/

/-- The number lies above the odd multiple `k` of the last of 99 places; the
magnitude below it is nearer to that multiple, and reads on 100 places as the
half above the even multiple before. -/
structure DriftsTo (x : Binary64) (below k : Nat) : Prop where
  representable : Representable below
  next : below + spacing below = x.units
  odd : Odd k
  far : 9 / 20 < k - inOnes below * 10 ^ 99
  nearer : k - inOnes below * 10 ^ 99 < inOnes x.units * 10 ^ 99 - k
  close : inOnes x.units * 10 ^ 99 - k < 1 / 2

/-- The number has such a multiple below it. -/
def Drifts (x : Binary64) : Prop := ∃ below k, DriftsTo x below k

/-- No integer is half way between the two neighbours. -/
theorem ne_middle {u c : Nat} (hu : Representable u) (hone : unitsPerOne = spacing u * 2 ^ 329) :
    (c : ℚ) - inOnes u * 10 ^ 99 ≠ inOnes (u + spacing u) * 10 ^ 99 - c := by
  intro h
  obtain ⟨m, -, hm⟩ := Binary64.exists_mul_spacing hu
  have hcast := unitsPerOne_cast_pos.ne'
  have hpos := Binary64.spacing_pos u
  generalize spacing u = t at *
  have hunits : (2 * c * unitsPerOne : ℚ) = (2 * u + t) * 10 ^ 99 := by
    rw [inOnes, inOnes] at h
    field_simp at h
    push_cast at h
    linarith
  have hunits : 2 * c * unitsPerOne = (2 * u + t) * 10 ^ 99 := by exact_mod_cast hunits
  have hten : 10 ^ 99 = 2 ^ 99 * 5 ^ 99 := by rw [← Nat.mul_pow]
  have htwo : 2 ^ 329 = 2 ^ 99 * 2 ^ 230 := by rw [← Nat.pow_add]
  rw [hone, hm, hten, htwo] at hunits
  -- an odd number times `10 ^ 99` has too few factors of two
  have hodd : Odd ((2 * m + 1) * 5 ^ 99) := (odd_two_mul_add_one m).mul (Odd.pow (by decide))
  have heven : (2 * m + 1) * 5 ^ 99 = 2 * (c * 2 ^ 230) := by
    have hp := Nat.two_pow_pos 99
    generalize 2 ^ 99 = p at hunits hp
    refine Nat.eq_of_mul_eq_mul_left (Nat.mul_pos hpos hp) ?_
    calc t * p * ((2 * m + 1) * 5 ^ 99) = (2 * (m * t) + t) * (p * 5 ^ 99) := by ring
      _ = 2 * c * (t * (p * 2 ^ 230)) := hunits.symm
      _ = t * p * (2 * (c * 2 ^ 230)) := by ring
  rw [heven] at hodd
  exact Nat.not_odd_iff_even.mpr (even_two_mul _) hodd

/-- The step from a magnitude to the next is a unit of a decimal place, by
less than twice the unseen gap more or less, on the last place but one only. -/
theorem lastButOne_of_step {u : Nat} (h0 : 0 < places) (hp : places < expansionPlaces)
    (hlow : 1 - 2 * unseenGap places < inOnes (spacing u) * 10 ^ places)
    (hhigh : inOnes (spacing u) * 10 ^ places < 1 + 2 * unseenGap places) :
    places = 99 ∧ unitsPerOne = spacing u * 2 ^ 329 := by
  have hone := unitsPerOne_cast_pos
  have hall : (0 : ℚ) < 10 ^ expansionPlaces := by positivity
  have hgap : 2 * unseenGap places = 10 ^ places / 10 ^ expansionPlaces := by
    rw [unseenGap]
    field_simp
  rw [hgap, inOnes, div_mul_eq_mul_div, lt_div_iff₀ hone, sub_mul, sub_lt_iff_lt_add,
    div_mul_eq_mul_div, one_mul] at hlow
  rw [hgap, inOnes, div_mul_eq_mul_div, div_lt_iff₀ hone, add_mul, div_mul_eq_mul_div,
    one_mul] at hhigh
  have hlow := mul_lt_mul_of_pos_right hlow hall
  have hhigh := mul_lt_mul_of_pos_right hhigh hall
  rw [add_mul, div_mul_cancel₀ _ hall.ne'] at hlow hhigh
  rw [Binary64.spacing_eq] at hlow hhigh ⊢
  exact places_of_step h0 hp (by exact_mod_cast hlow) (by exact_mod_cast hhigh)

theorem lastButOne_step_lt {u : Nat} (hone : unitsPerOne = spacing u * 2 ^ 329) :
    inOnes (spacing u) * 10 ^ 99 < 23 / 25 := by
  have hpow : 25 * 10 ^ 99 < 23 * 2 ^ 329 := by decide +kernel
  have hpos := Binary64.spacing_pos u
  generalize 2 ^ 329 = q at hone hpow
  have hmul : 25 * (spacing u * 10 ^ 99) < 23 * (spacing u * q) := by
    have := Nat.mul_lt_mul_of_pos_left hpow hpos
    linarith
  rw [← hone] at hmul
  rw [inOnes, div_mul_eq_mul_div, div_lt_div_iff₀ unitsPerOne_cast_pos (by norm_num)]
  have hmul : (25 : ℚ) * (spacing u * 10 ^ 99) < 23 * unitsPerOne := by exact_mod_cast hmul
  linarith

/-- Only a number that is rounded down can have another coefficient than its rounding. -/
theorem units_roundHalfEven_lt (hx : x.exceedsFixed = false)
    (hne : evenCoefficient places (x.roundHalfEven places) ≠ evenCoefficient places x) :
    (x.roundHalfEven places).units < x.units := by
  rcases Nat.lt_trichotomy (x.roundHalfEven places).units x.units with hlt | heq | hgt
  · exact hlt
  · exact absurd (Nat.le_antisymm (evenCoefficient_mono heq.le places)
      (evenCoefficient_mono heq.ge places)) hne
  · exact absurd (coefficient_stable_of_lt hx hgt) hne

/-- A number of which the rounding has another coefficient drifts. -/
theorem drifts_of_coefficient_ne (hx : x.exceedsFixed = false) (hp : places ≤ expansionPlaces)
    (hne : evenCoefficient places (x.roundHalfEven places) ≠ evenCoefficient places x) :
    places = 99 ∧ Drifts x := by
  have hdown := units_roundHalfEven_lt hx hne
  have hnearest := isNearestMagnitude_roundHalfEven hx places
  generalize x.roundHalfEven places = r at hdown hnearest hne
  have hu := representable_units r
  have hv := representable_units x
  have hmono := evenCoefficient_mono hdown.le places
  have ha := (evenCoefficient_bounds places x).2
  have hb := (evenCoefficient_bounds places r).2
  generalize evenCoefficient places x = c at *
  generalize evenCoefficient places r = c' at *
  generalize hxv : x.units = v at *
  generalize r.units = u at *
  have hless : (c' : ℚ) + 1 ≤ c := by exact_mod_cast (by omega : c' + 1 ≤ c)
  have hab : inOnes u * 10 ^ places < inOnes v * 10 ^ places :=
    mul_lt_mul_of_pos_right (inOnes_lt_inOnes.mpr hdown) (by positivity)
  -- the result is below the coefficient by a half or nearly so, and the number above it
  have hbelow : inOnes u * 10 ^ places < c := by
    rcases hb with hb | ⟨⟨-, hlt⟩, -, hb⟩
    · linarith
    · have := unseenGap_le hlt
      linarith
  have hcloser : c - inOnes u * 10 ^ places ≤ inOnes v * 10 ^ places - c := by
    have hdistance := distance_scaled hnearest hv
    rw [abs_of_nonneg (by linarith)] at hdistance
    rcases abs_choice (c - inOnes v * 10 ^ places) with e | e <;> linarith
  have hseen : 0 < places ∧ places < expansionPlaces := by
    rcases hb with hb | ⟨h, -⟩
    · rcases ha with ha | ⟨h, -⟩
      · linarith
      · exact h
    · exact h
  have hgap := unseenGap_le hseen.2
  have hpos := unseenGap_pos places
  have hlow : 1 / 2 - unseenGap places < c - inOnes u * 10 ^ places := by
    rcases hb with hb | ⟨-, -, hb⟩ <;> linarith
  have hhigh : inOnes v * 10 ^ places < c + 1 / 2 + unseenGap places := by
    rcases ha with ha | ⟨-, -, ha⟩ <;> linarith
  obtain rfl := eq_add_spacing hu hv hdown (fun w hw => distance_scaled hnearest hw) hgap hlow hhigh
  have hstep := inOnes_add_mul u (spacing u) (10 ^ places)
  obtain ⟨rfl, hone⟩ := lastButOne_of_step hseen.1 hseen.2 (by linarith) (by linarith)
  rw [unseenGap_lastButOne] at hlow hb
  have hwidth := lastButOne_step_lt hone
  have hnearer := lt_of_le_of_ne hcloser (ne_middle hu hone)
  refine ⟨rfl, u, c, hu, hxv.symm, ?_, by linarith, hxv ▸ hnearer, by rw [hxv]; linarith⟩
  -- the result is taken for the half above the multiple before, which is even
  rcases hb with hb | ⟨-, heven, hb⟩
  · linarith
  · have hnext : c = c' + 1 := by
      by_contra hfar
      have hfar : (c' : ℚ) + 2 ≤ c := by exact_mod_cast (by omega : c' + 2 ≤ c)
      linarith
    exact hnext ▸ heven.add_one

/-! ## Rounding twice -/

/-- With the same coefficient the rounding of the rounding is the same. -/
theorem units_stable (hx : x.exceedsFixed = false)
    (hr : (x.roundHalfEven places).exceedsFixed = false)
    (h : evenCoefficient places (x.roundHalfEven places) = evenCoefficient places x) :
    ((x.roundHalfEven places).roundHalfEven places).units = (x.roundHalfEven places).units := by
  have hfinite := isFinite_roundHalfEven (exceedsFixed_eq_false_iff.mp hx).1 places
  have hfinite' := isFinite_roundHalfEven hfinite places
  rw [units_eq_magnitude hfinite', roundHalfEven_eq hr, h, units_eq_magnitude hfinite,
    roundHalfEven_eq hx, magnitude_toBinary64, magnitude_toBinary64]
  rfl

namespace DriftsTo

variable {u k : Nat}

theorem step (h : DriftsTo x u k) :
    inOnes x.units * 10 ^ 99 = inOnes u * 10 ^ 99 + inOnes (spacing u) * 10 ^ 99 := by
  rw [← h.next, inOnes_add_mul]

/-- Of steps that are less than a unit of the last place there are at most
`2 ^ 53` in the number. -/
theorem exceedsFixed (h : DriftsTo x u k) : x.exceedsFixed = false := by
  have hstep := h.step
  obtain ⟨m, hm53, hm⟩ := Binary64.exists_mul_spacing h.representable
  have hle : x.units ≤ 2 ^ 53 * spacing u := by
    have := Nat.mul_le_mul_right (spacing u) (Nat.succ_le_of_lt hm53)
    rw [Nat.succ_mul] at this
    have := h.next
    omega
  have hsmall : inOnes x.units ≤ 2 ^ 53 * inOnes (spacing u) := by
    rw [inOnes, inOnes, ← mul_div_assoc, div_le_div_iff_of_pos_right unitsPerOne_cast_pos]
    exact_mod_cast hle
  have hlt : inOnes x.units < 10 ^ 21 := by
    have hwidth : inOnes (spacing u) * 10 ^ 99 < 1 := by linarith [h.nearer, h.close]
    norm_num at *
    linarith [inOnes_nonneg (spacing u)]
  rw [inOnes, div_lt_iff₀ unitsPerOne_cast_pos] at hlt
  have hpos := h.next ▸ Nat.add_pos_right u (Binary64.spacing_pos u)
  exact exceedsFixed_eq_false_iff.mpr ⟨isFinite_of_units_pos hpos, by exact_mod_cast hlt⟩

theorem coefficient (h : DriftsTo x u k) : evenCoefficient 99 x = k := by
  have hbounds := evenCoefficient_bounds 99 x
  rw [unseenGap_lastButOne] at hbounds
  obtain ⟨hle, hge⟩ := hbounds
  obtain ⟨-, -, -, hfar, hnearer, hclose⟩ := h
  have hle : (evenCoefficient 99 x : ℚ) < k + 1 := by linarith
  have hge : (k : ℚ) < evenCoefficient 99 x + 1 := by
    rcases hge with hge | ⟨-, -, hge⟩ <;> linarith
  have hle : evenCoefficient 99 x < k + 1 := by exact_mod_cast hle
  have hge : k < evenCoefficient 99 x + 1 := by exact_mod_cast hge
  omega

/-- The number is rounded to the magnitude below it. -/
theorem units_roundHalfEven (h : DriftsTo x u k) : (x.roundHalfEven 99).units = u := by
  have hten : (0 : ℚ) < 10 ^ 99 := by positivity
  have hnearest := isNearestMagnitude_roundHalfEven h.exceedsFixed 99
  rw [h.coefficient] at hnearest
  obtain ⟨hu, hnext, -, hfar, hnearer, -⟩ := h
  have hdistance := distance_scaled hnearest hu
  rw [abs_of_pos (by linarith : (0 : ℚ) < k - inOnes u * 10 ^ 99)] at hdistance
  by_contra hne
  rcases Nat.lt_or_gt_of_ne hne with hlt | hgt
  · have hlt := mul_lt_mul_of_pos_right (inOnes_lt_inOnes.mpr hlt) hten
    have := le_abs_self (k - inOnes (x.roundHalfEven 99).units * 10 ^ 99)
    linarith
  · have hle := Binary64.add_spacing_le hu hnearest.representable hgt
    rw [hnext] at hle
    have hle := mul_le_mul_of_nonneg_right (inOnes_le_inOnes.mpr hle) hten.le
    have := neg_le_abs (k - inOnes (x.roundHalfEven 99).units * 10 ^ 99)
    linarith

theorem exceedsFixed_roundHalfEven (h : DriftsTo x u k) :
    (x.roundHalfEven 99).exceedsFixed = false := by
  obtain ⟨hfinite, hlt⟩ := exceedsFixed_eq_false_iff.mp h.exceedsFixed
  have hunits := h.units_roundHalfEven
  have hnext := h.next
  exact exceedsFixed_eq_false_iff.mpr ⟨isFinite_roundHalfEven hfinite 99, by omega⟩

/-- The result goes down to the even multiple, to which the double one
further below is nearer. -/
theorem units_ne (h : DriftsTo x u k) :
    ((x.roundHalfEven 99).roundHalfEven 99).units ≠ (x.roundHalfEven 99).units := by
  have hresult := h.units_roundHalfEven
  have hagain := isNearestMagnitude_roundHalfEven h.exceedsFixed_roundHalfEven 99
  have hstep := h.step
  obtain ⟨hu, hnext, hodd, hfar, hnearer, hclose⟩ := h
  obtain ⟨m, heven, rfl⟩ : ∃ m, Even m ∧ k = m + 1 := by
    obtain ⟨i, rfl⟩ := hodd
    exact ⟨2 * i, even_two_mul i, rfl⟩
  push_cast at hfar hnearer hclose
  have hbefore : evenCoefficient 99 (x.roundHalfEven 99) = m := by
    refine evenCoefficient_of_near heven (by decide) (by decide) ?_ ?_
    · rw [hresult]
      linarith
    · rw [hresult, unseenGap_lastButOne]
      linarith
  intro hself
  rw [hbefore, hself, hresult] at hagain
  have hpos : 0 < u := by
    refine Nat.pos_of_ne_zero fun h0 => ?_
    rw [h0, inOnes_zero] at hnearer
    linarith [(Nat.cast_nonneg m : (0 : ℚ) ≤ m)]
  have hdvd : spacing u ∣ u := hu.2
  have hlower : inOnes u * 10 ^ 99 =
      inOnes (u - spacing u) * 10 ^ 99 + inOnes (spacing u) * 10 ^ 99 := by
    rw [← inOnes_add_mul, Nat.sub_add_cancel (Nat.le_of_dvd hpos hdvd)]
  have hdistance := distance_scaled hagain (Binary64.representable_sub_spacing hu)
  rw [abs_of_nonpos (by linarith)] at hdistance
  rcases abs_choice (m - inOnes (u - spacing u) * 10 ^ 99) with e | e <;> linarith

end DriftsTo

/-- The same number; the zeros are one. -/
def SameNumber (x y : Binary64) : Prop := x = y ∨ x.isZero = true ∧ y.isZero = true

instance (x y : Binary64) : Decidable (SameNumber x y) := inferInstanceAs (Decidable (_ ∨ _))

theorem sameNumber_iff {y : Binary64} (hx : x.isFinite = true) (hy : y.isFinite = true)
    (hsign : x.isZero = false → y.negative = x.negative) :
    SameNumber y x ↔ y.units = x.units := by
  obtain ⟨s, u, hu, rfl⟩ := Binary64.exists_of_isFinite hx
  obtain ⟨t, v, hv, rfl⟩ := Binary64.exists_of_isFinite hy
  constructor
  · rintro (h | ⟨hv0, hu0⟩)
    · rw [h]
    · rw [units_eq_zero_of_isZero hv0, units_eq_zero_of_isZero hu0]
  · rintro (rfl : v = u)
    cases hzero : (Binary64.finite s v hu).isZero with
    | true => exact .inr ⟨hzero, hzero⟩
    | false =>
      obtain rfl : t = s := hsign hzero
      exact .inl rfl

/-- What is rounded stays what it is when it is rounded again, but for the
numbers that drift. -/
theorem sameNumber_roundHalfEven_iff (x : Binary64) (hp : places ≤ expansionPlaces) :
    SameNumber ((x.roundHalfEven places).roundHalfEven places) (x.roundHalfEven places) ↔
      ¬ (places = 99 ∧ Drifts x) := by
  cases hx : x.exceedsFixed with
  | true =>
    rw [Binary64.roundHalfEven_of_exceedsFixed hx, Binary64.roundHalfEven_of_exceedsFixed hx]
    refine iff_of_true (.inl rfl) ?_
    rintro ⟨-, u, k, h⟩
    rw [h.exceedsFixed] at hx
    cases hx
  | false =>
    cases hr : (x.roundHalfEven places).exceedsFixed with
    | true =>
      rw [Binary64.roundHalfEven_of_exceedsFixed hr]
      refine iff_of_true (.inl rfl) ?_
      rintro ⟨rfl, u, k, h⟩
      rw [h.exceedsFixed_roundHalfEven] at hr
      cases hr
    | false =>
      have hfinite := isFinite_roundHalfEven (exceedsFixed_eq_false_iff.mp hx).1 places
      rw [sameNumber_iff hfinite (isFinite_roundHalfEven hfinite places) fun hzero => by
        rw [negative_roundHalfEven hr, hzero, Bool.not_false, Bool.and_true]]
      constructor
      · rintro hunits ⟨rfl, u, k, h⟩
        exact h.units_ne hunits
      · intro hstable
        by_contra hunits
        exact hstable (drifts_of_coefficient_ne hx hp fun h => hunits (units_stable hx hr h))

end ContestGrading.Decimal
