import ContestGrading.Proofs.Decimal.NearestDouble
import ContestGrading.Proofs.Decimal.Significant
import ContestGrading.Proofs.Decimal.Whole
/-!
# The shortest decimal is read back

Two magnitudes of the format are at least one part in `2 ^ 53` of the greater
one apart, so a decimal that is nearer to a double than half of that is read
as the double. Seventeen digits are enough for it, which is where the search
for the shortest decimal ends. A decimal of at most fifteen digits that was
read as a double is the one that the search finds.

Results:
* `toBinary64_eq_of_close`: a decimal that is near enough is read as the double.
* `toBinary64_shortest`: the shortest decimal is read as the double.
* `size_shortest_of_digits`: up to fifteen digits are found again.
-/
namespace ContestGrading

namespace Binary64

open Decimal

variable {u v : Nat}

/-! ## Near enough -/

theorem add_spacing_le_overflowLimit (hu : Representable u) : u + spacing u ≤ overflowLimit := by
  have hlimit := hu.1
  have hdvd : spacing u ∣ overflowLimit - u :=
    Nat.dvd_sub (Nat.dvd_trans (spacing_dvd_spacing hlimit.le) spacing_dvd_overflowLimit) hu.2
  have := Nat.le_of_dvd (Nat.sub_pos_of_lt hlimit) hdvd
  omega

/-- Another magnitude, or what overflows, is at least one part in `2 ^ 53` away. -/
theorem le_two_pow_mul_distance (hu : Representable u) (hv : Representable v ∨ overflowLimit ≤ v)
    (hne : v ≠ u) : (u : ℚ) ≤ 2 ^ 53 * |(v : ℚ) - u| := by
  rcases Nat.lt_or_gt_of_ne hne with hlt | hgt
  · have hv : Representable v := hv.resolve_right (Nat.not_le_of_lt (hlt.trans hu.1))
    have hle := two_pow_mul_le hv hu hlt
    have hle : 2 ^ 53 * v + u ≤ 2 ^ 53 * u := by omega
    have hle : (2 ^ 53 * v + u : ℚ) ≤ 2 ^ 53 * u := by exact_mod_cast hle
    have hvu : (v : ℚ) ≤ u := Nat.cast_le.mpr hlt.le
    rw [abs_sub_comm, abs_of_nonneg (sub_nonneg.mpr hvu)]
    linarith
  · have hnext : u + spacing u ≤ v := by
      rcases hv with hv | hv
      · exact add_spacing_le hu hv hgt
      · exact (add_spacing_le_overflowLimit hu).trans hv
    obtain ⟨k, hk53, hk⟩ := exists_mul_spacing hu
    have hself : u ≤ 2 ^ 53 * spacing u := by
      have hmul := Nat.mul_le_mul_right (spacing u) hk53.le
      rwa [← hk] at hmul
    have hself : (u : ℚ) ≤ 2 ^ 53 * spacing u := by exact_mod_cast hself
    have hnext : (u : ℚ) + spacing u ≤ v := by exact_mod_cast hnext
    have hvu : (u : ℚ) ≤ v := Nat.cast_le.mpr hgt.le
    rw [abs_of_nonneg (sub_nonneg.mpr hvu)]
    linarith

/-- A quotient that is nearer to a magnitude than half of the distance to any
other is rounded to it. -/
theorem rounded_of_close {num den : Nat} (hd : 0 < den) (hu : Representable u)
    (h : 2 ^ 54 * |(num / den : ℚ) - u| < u) : rounded num den = u := by
  have hn := isNearestEven_nearestEven num (Nat.mul_pos hd (spacing_pos (num / den)))
  rw [Nat.cast_mul den, ← div_div] at hn
  have hnearest := (grid_nearest hd hu hn).1
  have hgrid : onGrid num den = u := by
    by_contra hne
    have hcases : Representable (onGrid num den) ∨ overflowLimit ≤ onGrid num den := by
      rcases Nat.lt_or_ge (onGrid num den) overflowLimit with hlt | hge
      · exact .inl (onGrid_representable hd hlt)
      · exact .inr hge
    have hfar := le_two_pow_mul_distance hu hcases hne
    have htriangle := abs_sub_le (onGrid num den : ℚ) (num / den) u
    rw [abs_sub_comm (onGrid num den : ℚ) (num / den)] at htriangle
    change |(num / den : ℚ) - onGrid num den| ≤ _ at hnearest
    linarith
  rw [rounded, hgrid]
  exact Nat.min_eq_left hu.1.le

end Binary64

namespace Decimal

open Binary64 (Representable unitsPerOne rounded)

variable {d e : Decimal} {x : Binary64} {p : Nat}

/-- How a decimal is read depends on its sign and magnitude alone. -/
theorem toBinary64_congr (hn : d.negative = e.negative) (hs : d.size = e.size) :
    d.toBinary64 = e.toBinary64 := by
  have hmagnitude : d.toBinary64.magnitude = e.toBinary64.magnitude :=
    Nat.le_antisymm (magnitude_toBinary64_mono hs.le) (magnitude_toBinary64_mono hs.ge)
  rw [magnitude_toBinary64, magnitude_toBinary64] at hmagnitude
  rw [toBinary64_eq, toBinary64_eq, Binary64.ofRatio_eq, Binary64.ofRatio_eq, hn, hmagnitude]

/-- A decimal that is near enough to a double is read as it. -/
theorem toBinary64_eq_of_close (hx : x.isFinite = true) (hn : d.negative = x.negative)
    (h : 2 ^ 54 * |d.size - inOnes x.units| < inOnes x.units) : d.toBinary64 = x := by
  have hone := unitsPerOne_cast_pos
  have hrounded : rounded (d.ratio.1 * unitsPerOne) d.ratio.2 = x.units := by
    refine Binary64.rounded_of_close d.ratio_pos (representable_units x) ?_
    have hquotient : ((d.ratio.1 * unitsPerOne : Nat) / d.ratio.2 : ℚ) = d.size * unitsPerOne := by
      rw [size_eq_ratio]
      push_cast
      ring
    rw [hquotient, ← Binary64.distance_mul_unitsPerOne, ← mul_assoc]
    rwa [inOnes, lt_div_iff₀ hone] at h
  obtain ⟨s, u, hu, rfl⟩ := Binary64.exists_of_isFinite hx
  rw [toBinary64_eq, Binary64.ofRatio_eq, hrounded, hn]
  exact Binary64.ofUnits_units hu

/-! ## Seventeen digits -/

/-- The rounding to significant digits is off by at most half of the last one. -/
theorem error_toSignificant (hx : 0 < x.units) (p : Nat) :
    |(x.toSignificant (p + 1)).size - inOnes x.units| ≤ inOnes x.units / (2 * 10 ^ p) := by
  obtain ⟨c, hc, -, -, hsize⟩ := size_toSignificant hx p
  obtain ⟨hlow, -⟩ := inOnes_bounds hx p
  rw [hsize]
  generalize lastExponent (p + 1) x = last at hc hlow
  have hpos : (0 : ℚ) < 10 ^ last := by positivity
  have hquot : inOnes x.units = inOnes x.units / 10 ^ last * 10 ^ last :=
    (div_mul_cancel₀ _ hpos.ne').symm
  generalize inOnes x.units / 10 ^ last = q at hquot hc hlow
  have hhalf : |(c : ℚ) - q| ≤ 1 / 2 := by
    rw [abs_le]
    constructor <;> linarith [hc.1, hc.2]
  rw [hquot, ← sub_mul, abs_mul, abs_of_pos hpos, mul_div_right_comm]
  refine mul_le_mul_of_nonneg_right (hhalf.trans ?_) hpos.le
  rw [div_le_div_iff₀ (by norm_num) (by positivity)]
  linarith

/-- Seventeen digits are read back. -/
theorem toBinary64_toSignificant (hx : 0 < x.units) (hp : 16 ≤ p) :
    (x.toSignificant (p + 1)).toBinary64 = x := by
  refine toBinary64_eq_of_close (isFinite_of_units_pos hx) (toSignificant_negative hx p) ?_
  have herror := error_toSignificant hx p
  have hpos : 0 < inOnes x.units := inOnes_zero ▸ inOnes_lt_inOnes.mpr hx
  have hpow : (10 : ℚ) ^ 16 ≤ 10 ^ p := pow_le_pow_right₀ (by norm_num) hp
  have hbound : inOnes x.units / (2 * 10 ^ p) ≤ inOnes x.units / (2 * 10 ^ 16) := by gcongr
  linarith

/-- **The shortest decimal is read back.** -/
theorem toBinary64_shortest (hx : 0 < x.units) : x.shortest.toBinary64 = x := by
  obtain ⟨-, -, -, hsign⟩ := normalize_eq
    (((List.range 17).findSome? fun i => x.shortestOn? (i + 1)).getD (x.toSignificant 17))
  rw [Binary64.shortest, toBinary64_congr hsign (size_normalize _)]
  cases hsearch : (List.range 17).findSome? fun i => x.shortestOn? (i + 1) with
  | none => exact toBinary64_toSignificant hx le_rfl
  | some d =>
    obtain ⟨i, -, hi⟩ := List.exists_of_findSome?_eq_some hsearch
    exact of_decide_eq_true (Binary64.readsBack_of_shortestOn? hi)

/-! ## Digits that are found again -/

theorem error_of_read (hx : 2 ^ 53 ≤ x.units) (hd : d.toBinary64 = x) :
    |inOnes x.units - d.size| ≤ d.size / 2 ^ 53 := by
  have hmagnitude : x.units = x.magnitude :=
    units_eq_magnitude (isFinite_of_units_pos (Nat.lt_of_lt_of_le (Nat.two_pow_pos 53) hx))
  have hlt := x.units_lt
  rw [hmagnitude, ← hd] at hx hlt ⊢
  exact toBinary64_error hx hlt

/-- A decimal on the grid of up to fifteen digits that is read as a double above
the smallest magnitudes is what that double is rounded to. -/
theorem size_toSignificant_of_read (hx : 2 ^ 53 ≤ x.units) (hd : d.toBinary64 = x) (hp : p ≤ 14)
    {n : Nat} (hn : d.size = n * 10 ^ lastExponent (p + 1) x) :
    (x.toSignificant (p + 1)).size = d.size := by
  have herror := error_of_read hx hd
  rw [hn] at herror ⊢
  exact size_toSignificant_of_close (by omega) hp herror

/-- A decimal with its last digit on a grid, or before, lies on the grid. -/
theorem exists_multiple_of_le {last : ℤ} (h : last ≤ d.exponent) :
    ∃ n : Nat, d.size = n * 10 ^ last := by
  obtain ⟨k, hk⟩ := Int.le.dest h
  refine ⟨d.coefficient * 10 ^ k, ?_⟩
  rw [size, ← hk, zpow_add₀ (by norm_num), zpow_natCast]
  push_cast
  ring

/-- The last of up to fifteen digits is on the grid of as many digits of the
double that they are read as. -/
theorem lastExponent_le_of_digits (hx : 2 ^ 53 ≤ x.units) (hd : d.toBinary64 = x) (hp : p ≤ 14)
    (hc : d.coefficient < 10 ^ (p + 1)) : lastExponent (p + 1) x ≤ d.exponent := by
  have herror := (abs_le.mp (error_of_read hx hd)).2
  have hsize : d.size + d.size / 2 ^ 53 < 10 ^ ((p + 1 : Nat) + d.exponent) := by
    have hpos : (0 : ℚ) < 10 ^ d.exponent := by positivity
    have hc : (d.coefficient + 1 : ℚ) ≤ 10 ^ (p + 1) := by exact_mod_cast Nat.succ_le_of_lt hc
    have hpow : (10 : ℚ) ^ (p + 1) ≤ 10 ^ 15 := pow_le_pow_right₀ (by norm_num) (by omega)
    have hfactor : (d.coefficient + d.coefficient / 2 ^ 53 : ℚ) < 10 ^ (p + 1) := by linarith
    rw [zpow_add₀ (by norm_num), zpow_natCast, size]
    calc (d.coefficient * 10 ^ d.exponent + d.coefficient * 10 ^ d.exponent / 2 ^ 53 : ℚ)
        = (d.coefficient + d.coefficient / 2 ^ 53) * 10 ^ d.exponent := by ring
      _ < 10 ^ (p + 1) * 10 ^ d.exponent := by rwa [mul_lt_mul_iff_left₀ hpos]
  have hexponent : x.decimalExponent < (p + 1 : Nat) + d.exponent :=
    (decimalExponent_lt_iff (by omega)).mpr (by linarith)
  unfold lastExponent
  omega

/-- A multiple that is nearer than one to a quotient is one of its neighbours. -/
theorem eq_neighbour {num den n : Nat} (hd : 0 < den) (h : |(num / den : ℚ) - n| < 1) :
    n = num / den ∨ n = num / den + 1 := by
  have hd' : (0 : ℚ) < den := Nat.cast_pos.mpr hd
  obtain ⟨hgt, hlt⟩ := abs_lt.mp h
  have hlow : (num : ℚ) < (n + 1 : Nat) * den := by
    rw [← div_lt_iff₀ hd']
    push_cast
    linarith
  have hhigh : (n : ℚ) * den < num + den := by
    have : (n : ℚ) < (num + den) / den := by
      rw [add_div, div_self hd'.ne']
      linarith
    rwa [lt_div_iff₀ hd'] at this
  have hlow : num / den < n + 1 := (Nat.div_lt_iff_lt_mul hd).mpr (by exact_mod_cast hlow)
  have hhigh : n * den < num + den := by exact_mod_cast hhigh
  have hquotient := Nat.lt_div_mul_add (a := num) hd
  have hfloor : n < num / den + 2 := by
    refine Nat.lt_of_mul_lt_mul_right (a := den) ?_
    rw [Nat.add_mul]
    omega
  omega

/-- The search finds something by the fifteenth digit. -/
theorem isSome_shortestOn?_of_digits (hx : 2 ^ 53 ≤ x.units) (hd : d.toBinary64 = x) {n : Nat}
    (hn : d.size = n * 10 ^ lastExponent 15 x) : (x.shortestOn? (14 + 1)).isSome := by
  have hsign : d.negative = x.negative := by rw [← hd, negative_toBinary64]
  have hsame : toBinary64 ⟨x.negative, n, lastExponent (14 + 1) x⟩ = d.toBinary64 :=
    toBinary64_congr hsign.symm (by rw [hn]; rfl)
  have hread : x.readsBack ⟨x.negative, n, lastExponent (14 + 1) x⟩ = true :=
    decide_eq_true (hsame.trans hd)
  refine Binary64.isSome_shortestOn? hread (eq_neighbour (overPowerOfTen_pos _ _) ?_)
  -- in units of the last digit the error is a fraction of one
  have hhigh := (inOnes_bounds (by omega : 0 < x.units) 14).2
  have herror := error_of_read hx hd
  rw [overPowerOfTen_eq]
  rw [hn] at herror
  have hpos : (0 : ℚ) < 10 ^ lastExponent (14 + 1) x := by positivity
  have hquot : inOnes x.units =
      inOnes x.units / 10 ^ lastExponent (14 + 1) x * 10 ^ lastExponent (14 + 1) x :=
    (div_mul_cancel₀ _ hpos.ne').symm
  generalize inOnes x.units / 10 ^ lastExponent (14 + 1) x = q at hquot hhigh ⊢
  rw [hquot, ← sub_mul, abs_mul, abs_of_pos hpos, mul_div_right_comm] at herror
  have herror := le_of_mul_le_mul_right herror hpos
  have hlow := (abs_le.mp herror).1
  have hhigh : q < 10 ^ 15 := hhigh
  linarith

/-- **Digits that are found again.** The shortest decimal of what up to fifteen
digits are read as has those digits, unless they are among the smallest
magnitudes. -/
theorem size_shortest_of_digits (hx : 2 ^ 53 ≤ x.units) (hd : d.toBinary64 = x)
    (hc : d.coefficient < 10 ^ 15) : x.shortest.size = d.size := by
  obtain ⟨n, hn⟩ := exists_multiple_of_le (lastExponent_le_of_digits hx hd (by decide) hc)
  obtain ⟨i, hi, found, hfound, hsearch⟩ :=
    Binary64.findSome?_range (f := fun i => x.shortestOn? (i + 1)) (by decide : 14 < 17)
      (isSome_shortestOn?_of_digits hx hd hn)
  -- what is found is on the grid of fifteen digits too, and both are what the
  -- double is rounded to there
  obtain ⟨-, hexponent, -⟩ := Binary64.shortestOn?_cases hfound
  have hlast : lastExponent 15 x ≤ found.exponent := by
    rw [hexponent]
    unfold lastExponent
    omega
  obtain ⟨m, hm⟩ := exists_multiple_of_le hlast
  have hread := of_decide_eq_true (Binary64.readsBack_of_shortestOn? hfound)
  rw [Binary64.shortest, size_normalize, hsearch, Option.getD_some,
    ← size_toSignificant_of_read hx hread le_rfl hm, size_toSignificant_of_read hx hd le_rfl hn]

end Decimal

end ContestGrading
