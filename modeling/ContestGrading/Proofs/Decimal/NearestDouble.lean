import ContestGrading.Proofs.Decimal.Ties
/-!
# The double that is nearest

Reading a decimal gives the double that is nearest to it among all finite
doubles, of two nearest the one with the even significand. What is needed of
the neighbours of a double is here as well: the next one above is a spacing
away, the next one below at least half of it.

Results:
* `add_spacing_le`, `spacing_le_of_lt`: the neighbours above and below.
* `isNearestMagnitude_rounded`: no magnitude of the format is nearer.
* `isNearest_iff`: the same with the sign.
* `isNearestMagnitude_iff_of_close`, `IsNearestMagnitude.of_above`: a double
  that is near enough to a number is nearest to it.
-/
namespace ContestGrading

namespace Binary64

open Decimal

variable {u v : Nat}

/-! ## Neighbours -/

theorem spacing_dvd_spacing (h : u ≤ v) : spacing u ∣ spacing v := by
  by_cases h0 : u = 0
  · subst h0
    exact Nat.one_dvd _
  · have hlog : u.log2 ≤ v.log2 :=
      (Nat.le_log2 (by omega)).mpr (Nat.le_trans (Nat.log2_self_le h0) h)
    exact Nat.pow_dvd_pow 2 (by omega)

theorem spacing_dvd_of_le (hv : Representable v) (h : u ≤ v) : spacing u ∣ v :=
  Nat.dvd_trans (spacing_dvd_spacing h) hv.2

/-- The next magnitude above is a spacing away. -/
theorem add_spacing_le (hu : Representable u) (hv : Representable v) (h : u < v) :
    u + spacing u ≤ v := by
  have hdvd : spacing u ∣ v - u := Nat.dvd_sub (spacing_dvd_of_le hv h.le) hu.2
  have := Nat.le_of_dvd (Nat.sub_pos_of_lt h) hdvd
  omega

/-- The next magnitude below is at least half a spacing away. -/
theorem spacing_le_of_lt (hu : Representable u) (hv : Representable v) (h : v < u) :
    2 * v + spacing u ≤ 2 * u := by
  by_cases hlog : u.log2 ≤ 52
  · rw [spacing_eq, Nat.sub_eq_zero_of_le hlog]
    omega
  · -- below the binade the spacing is half as much
    obtain ⟨e, he⟩ : ∃ e, u.log2 = 53 + e := ⟨u.log2 - 53, by omega⟩
    have hspacing : spacing u = 2 * 2 ^ e := by
      rw [spacing_eq, he, show 53 + e - 52 = e + 1 by omega, Nat.pow_succ, Nat.mul_comm]
    have hself : 2 ^ 53 * 2 ^ e ≤ u := by
      rw [← Nat.pow_add, ← he]
      exact Nat.log2_self_le (by omega)
    rcases Nat.lt_or_ge v (2 ^ 52 * 2 ^ e) with hlt | hge
    · omega
    · have hlogv : 52 + e ≤ v.log2 := by
        have hpos := Nat.two_pow_pos e
        rw [Nat.le_log2 (by omega), Nat.pow_add]
        exact hge
      have hdu : 2 ^ e ∣ u := Nat.dvd_trans (Nat.pow_dvd_pow 2 (by omega)) hu.2
      have hdv : 2 ^ e ∣ v := Nat.dvd_trans (Nat.pow_dvd_pow 2 (by omega)) hv.2
      have := Nat.le_of_dvd (Nat.sub_pos_of_lt h) (Nat.dvd_sub hdu hdv)
      omega

/-- A magnitude has fewer than `2 ^ 53` of its spacings. -/
theorem exists_mul_spacing (hu : Representable u) : ∃ k, k < 2 ^ 53 ∧ u = k * spacing u := by
  obtain ⟨k, hk⟩ : spacing u ∣ u := hu.2
  rw [Nat.mul_comm] at hk
  refine ⟨k, ?_, hk⟩
  have hlt : u < 2 ^ 53 * spacing u := by
    rw [spacing_eq, ← Nat.pow_add]
    exact Nat.lt_of_lt_of_le Nat.lt_log2_self (Nat.pow_le_pow_right (by decide) (by omega))
  refine Nat.lt_of_mul_lt_mul_right (a := spacing u) ?_
  rwa [← hk]

/-- The lesser of two magnitudes is at least one part in `2 ^ 53` below. -/
theorem two_pow_mul_le {u v : Nat} (hu : Representable u) (hv : Representable v) (h : u < v) :
    2 ^ 53 * u ≤ (2 ^ 53 - 1) * v := by
  have hnext := add_spacing_le hu hv h
  obtain ⟨k, hk53, hk⟩ := exists_mul_spacing hu
  have hself : u ≤ (2 ^ 53 - 1) * spacing u := by
    have hmul := Nat.mul_le_mul_right (spacing u) (Nat.le_pred_of_lt hk53)
    rwa [← hk] at hmul
  omega

/-- A spacing below there is another magnitude. -/
theorem representable_sub_spacing (hu : Representable u) : Representable (u - spacing u) := by
  obtain ⟨k, hk53, hk⟩ := exists_mul_spacing hu
  have hsub : u - spacing u = (k - 1) * spacing u := by
    rw [Nat.sub_mul, Nat.one_mul, ← hk]
  have hle : (k - 1) * spacing u ≤ u := hsub ▸ Nat.sub_le _ _
  rw [hsub]
  rw [spacing_eq] at hle ⊢
  exact representable_mul_pow (by omega) (Nat.lt_of_le_of_lt hle hu.1)

/-! ## The nearest magnitude -/

/-- `u` is the magnitude nearest to the number `a`, of two nearest the one
with the even significand. -/
structure IsNearestMagnitude (a : ℚ) (u : Nat) : Prop where
  representable : Representable u
  nearest : ∀ v, Representable v → |a - inOnes u| ≤ |a - inOnes v|
  even : ∀ v, Representable v → v ≠ u → |a - inOnes v| = |a - inOnes u| → Even (u / spacing u)

/-- A magnitude lies on the grid around a quotient, or below a point of the
grid that is not above the quotient. -/
theorem grid_cases (num : Nat) {den : Nat} (hd : 0 < den) (hv : Representable v) :
    spacing (num / den) ∣ v ∨
      ∃ m, v < m * spacing (num / den) ∧ m * spacing (num / den) * den ≤ num := by
  rcases Nat.lt_or_ge v (num / den) with hlt | hge
  · by_cases hlog : (num / den).log2 ≤ 52
    · rw [spacing_eq, Nat.sub_eq_zero_of_le hlog]
      exact .inl (Nat.one_dvd v)
    · have hpow : 2 ^ 52 * spacing (num / den) = 2 ^ (num / den).log2 :=
        two_pow_mul_spacing (by omega)
      have hself := Nat.log2_self_le (n := num / den) (by omega)
      rcases Nat.lt_or_ge v (2 ^ (num / den).log2) with hbelow | habove
      · refine .inr ⟨2 ^ 52, ?_⟩
        rw [hpow]
        exact ⟨hbelow, (Nat.le_div_iff_mul_le hd).mp hself⟩
      · have hlogv : (num / den).log2 ≤ v.log2 :=
          (Nat.le_log2 (Nat.ne_of_gt (Nat.lt_of_lt_of_le (Nat.two_pow_pos _) habove))).mpr habove
        exact .inl (Nat.dvd_trans (Nat.pow_dvd_pow 2 (by omega)) hv.2)
  · exact .inl (spacing_dvd_of_le hv hge)

/-- The significand of a magnitude that is an even multiple on its grid. -/
theorem even_significand {n e : Nat} (hn : n ≤ 2 ^ 53) (he : e = 0 ∨ 2 ^ 52 ≤ n) (heven : Even n) :
    Even (n * 2 ^ e / spacing (n * 2 ^ e)) := by
  rcases Nat.eq_zero_or_pos n with rfl | hpos
  · simp
  rcases Nat.lt_or_eq_of_le hn with hlt | rfl
  · have hne : n * 2 ^ e ≠ 0 := Nat.mul_ne_zero (by omega) (Nat.two_pow_pos e).ne'
    have hlow : (n * 2 ^ e).log2 < 53 + e := by
      rw [Nat.log2_lt hne, Nat.pow_add]
      exact Nat.mul_lt_mul_of_pos_right hlt (Nat.two_pow_pos e)
    have hhigh : e = 0 ∨ 52 + e ≤ (n * 2 ^ e).log2 := by
      refine he.imp_right fun hge => ?_
      rw [Nat.le_log2 hne, Nat.pow_add]
      exact Nat.mul_le_mul_right _ hge
    rw [spacing_eq, show (n * 2 ^ e).log2 - 52 = e by omega,
      Nat.mul_div_cancel _ (Nat.two_pow_pos e)]
    exact heven
  · -- a carry makes the significand a power of two
    rw [spacing_eq, ← Nat.pow_add, Nat.log2_two_pow, Nat.pow_div (by omega) (by decide),
      show 53 + e - (53 + e - 52) = 51 + 1 by omega, Nat.pow_succ]
    exact even_two.mul_left _

/-- A rounding that does not overflow is a multiple on the grid. -/
theorem rounded_of_lt {num den : Nat} (h : rounded num den < overflowLimit) :
    rounded num den = nearestEven num (den * spacing (num / den)) * spacing (num / den) := by
  unfold rounded onGrid at *
  omega

/-- On the grid around a quotient the nearest multiple is nearer than any
other magnitude. -/
theorem grid_nearest {num den n : Nat} (hd : 0 < den) (hv : Representable v)
    (hn : IsNearestEven (num / den / spacing (num / den)) n) :
    |(num / den : ℚ) - (n * spacing (num / den) : Nat)| ≤ |(num / den : ℚ) - v| ∧
      (v ≠ n * spacing (num / den) →
        |(num / den : ℚ) - v| = |(num / den : ℚ) - (n * spacing (num / den) : Nat)| → Even n) := by
  have hcases := grid_cases num hd hv
  have hs : (0 : ℚ) < spacing (num / den) := Nat.cast_pos.mpr (spacing_pos _)
  generalize spacing (num / den) = s at hn hcases hs
  obtain ⟨hnearest, htie⟩ := hn.on_grid hs
  rw [Int.cast_natCast] at hnearest htie
  push_cast
  rcases hcases with ⟨k, rfl⟩ | ⟨m, hlt, hle⟩
  · have hk : ((s * k : Nat) : ℚ) = (k : ℤ) * s := by
      push_cast
      ring
    rw [hk]
    refine ⟨hnearest k, fun hne heq => ?_⟩
    have hkn : (k : ℤ) ≠ n := fun h => hne (by rw [Int.ofNat_inj.mp h, Nat.mul_comm])
    exact_mod_cast htie k hkn heq
  · -- the point of the grid lies between, and so the magnitude is further away
    have hle : (m : ℚ) * s ≤ num / den := by
      rw [le_div_iff₀ (Nat.cast_pos.mpr hd)]
      exact_mod_cast hle
    have hlt : (v : ℚ) < m * s := by exact_mod_cast hlt
    have hbelow := hnearest m
    rw [Int.cast_natCast, abs_of_nonneg (sub_nonneg.mpr hle)] at hbelow
    have hv : |(num / den : ℚ) - v| = num / den - v := abs_of_nonneg (by linarith)
    rw [hv]
    exact ⟨by linarith, fun _ heq => by linarith⟩

theorem distance_mul_unitsPerOne (a : ℚ) (u : Nat) :
    |a - inOnes u| * unitsPerOne = |a * unitsPerOne - u| := by
  have hone := unitsPerOne_cast_pos
  conv_lhs => rw [← abs_of_pos hone, ← abs_mul, sub_mul, inOnes, div_mul_cancel₀ _ hone.ne']

theorem distance_le_iff {a q : ℚ} (hq : a * unitsPerOne = q) (u v : Nat) :
    |a - inOnes u| ≤ |a - inOnes v| ↔ |q - u| ≤ |q - v| := by
  rw [← hq, ← distance_mul_unitsPerOne, ← distance_mul_unitsPerOne,
    mul_le_mul_iff_of_pos_right unitsPerOne_cast_pos]

/-- **Nearest.** No magnitude of the format is nearer to a quotient than its
rounding, and of two nearest it is the even one. -/
theorem isNearestMagnitude_rounded {num den : Nat} (hd : 0 < den)
    (h : rounded (num * unitsPerOne) den < overflowLimit) :
    IsNearestMagnitude (num / den) (rounded (num * unitsPerOne) den) := by
  have hgrid := rounded_of_lt h
  have hrepresentable : Representable (rounded (num * unitsPerOne) den) :=
    (rounded_cases hd).resolve_right h.ne
  have hscaled : (num / den : ℚ) * unitsPerOne = (num * unitsPerOne : Nat) / den := by
    push_cast
    ring
  generalize num * unitsPerOne = scaled at hgrid hrepresentable hscaled ⊢
  have hn := isNearestEven_nearestEven scaled (Nat.mul_pos hd (spacing_pos (scaled / den)))
  rw [Nat.cast_mul den, ← div_div] at hn
  refine ⟨hrepresentable, fun v hv => ?_, fun v hv hne heq => ?_⟩
  · rw [distance_le_iff hscaled, hgrid]
    exact (grid_nearest hd hv hn).1
  · have hle := (distance_le_iff hscaled _ _).mp heq.le
    have hge := (distance_le_iff hscaled _ _).mp heq.ge
    rw [hgrid] at hne hle hge ⊢
    refine even_significand (nearestEven_spacing_le hd) ?_
      ((grid_nearest hd hv hn).2 hne (le_antisymm hle hge))
    rcases Nat.lt_or_ge (scaled / den).log2 52 with hlow | hhigh
    · exact .inl (by omega)
    · have hle := two_pow_le_onGrid hd hhigh
      rw [← two_pow_mul_spacing hhigh] at hle
      exact .inr (Nat.le_of_mul_le_mul_right hle (spacing_pos _))

/-! ## The nearest double -/

/-- `x` is the finite double nearest to the number `q`, of two nearest the
one with the even significand. -/
structure IsNearest (x : Binary64) (q : ℚ) : Prop where
  isFinite : x.isFinite = true
  nearest : ∀ y : Binary64, y.isFinite = true → |q - x.value| ≤ |q - y.value|
  even : ∀ y : Binary64, y.isFinite = true → y.value ≠ x.value →
    |q - y.value| = |q - x.value| → Even (x.units / spacing x.units)

/-- A magnitude with the sign of a double. -/
def withSign (x : Binary64) (a : ℚ) : ℚ := if x.negative then -a else a

theorem value_eq_withSign {x : Binary64} (hx : x.isFinite = true) :
    x.value = x.withSign (inOnes x.units) := value_eq_inOnes hx

theorem abs_withSign (x : Binary64) {a : ℚ} (ha : 0 ≤ a) : |x.withSign a| = a := by
  rw [withSign]
  split
  · rw [abs_neg, abs_of_nonneg ha]
  · exact abs_of_nonneg ha

theorem withSign_sub (x : Binary64) (a b : ℚ) : |x.withSign a - x.withSign b| = |a - b| := by
  rw [withSign, withSign]
  split
  · rw [neg_sub_neg, abs_sub_comm]
  · rfl

theorem withSign_mul (x : Binary64) (a b : ℚ) : x.withSign a * b = x.withSign (a * b) := by
  unfold Binary64.withSign
  split
  · rw [neg_mul]
  · rfl

/-- The magnitude nearest to zero is zero. -/
theorem IsNearestMagnitude.eq_zero {a : ℚ} (h : IsNearestMagnitude a u) (ha : a = 0) : u = 0 := by
  have hle := h.nearest 0 representable_zero
  rw [ha, inOnes_zero, sub_self, abs_zero, zero_sub, abs_neg, abs_nonpos_iff] at hle
  exact inOnes_injective (hle.trans inOnes_zero.symm)

/-- Of two doubles of that magnitude only the one with the sign of the number
is as near as the magnitudes are. -/
theorem value_eq_of_units_eq {x y : Binary64} (hx : x.isFinite = true) (hy : y.isFinite = true)
    {a : ℚ} (ha : 0 ≤ a) (h : IsNearestMagnitude a x.units) (hunits : y.units = x.units)
    (heq : |x.withSign a - y.value| = |a - inOnes x.units|) : y.value = x.value := by
  have hown := value_eq_withSign hx
  have hother := value_eq_withSign hy
  have hnonneg := inOnes_nonneg x.units
  have hzero : a = 0 → inOnes x.units = 0 := fun ha0 => by rw [h.eq_zero ha0, inOnes_zero]
  rw [hother, hunits] at heq ⊢
  rw [hown]
  generalize inOnes x.units = b at heq hnonneg hzero
  by_cases hsign : x.negative = y.negative
  · rw [withSign, withSign, hsign]
  · -- on the two sides of zero, the distance is the sum
    have hsum : |x.withSign a - y.withSign b| = a + b := by
      have hflip : y.withSign b = x.withSign (-b) := by
        cases hxs : x.negative <;> cases hys : y.negative <;> simp_all [withSign]
      rw [hflip, withSign_sub, sub_neg_eq_add, abs_of_nonneg (by linarith)]
    have hb : b = 0 := by
      rw [hsum] at heq
      rcases abs_choice (a - b) with e | e
      · linarith
      · exact hzero (by linarith)
    rw [hb, withSign, withSign, neg_zero, ite_self, ite_self]

/-- A double is nearest to a number of its sign if its magnitude is nearest
to the magnitude of the number. -/
theorem isNearest_iff {x : Binary64} (hx : x.isFinite = true) {a : ℚ} (ha : 0 ≤ a) :
    x.IsNearest (x.withSign a) ↔ IsNearestMagnitude a x.units := by
  have hown : |x.withSign a - x.value| = |a - inOnes x.units| := by
    rw [value_eq_withSign hx, withSign_sub]
  constructor
  · intro h
    -- against a magnitude stands the double of that magnitude and the same sign
    have hsame : ∀ v (hv : Representable v),
        |x.withSign a - (finite x.negative v hv).value| = |a - inOnes v| := by
      intro v hv
      rw [value_eq_withSign (x := finite x.negative v hv) rfl]
      exact withSign_sub x a (inOnes v)
    refine ⟨representable_units x, fun v hv => ?_, fun v hv hne heq => ?_⟩
    · rw [← hown, ← hsame v hv]
      exact h.nearest _ rfl
    · refine h.even (finite x.negative v hv) rfl (fun hvalues => hne ?_) ?_
      · have := congrArg (|·|) hvalues
        rw [Binary64.abs_value, Binary64.abs_value] at this
        exact inOnes_injective this
      · rw [hsame, hown, heq]
  · intro h
    -- a double of the other sign is no nearer than its magnitude
    have hother : ∀ y : Binary64, |a - inOnes y.units| ≤ |x.withSign a - y.value| := by
      intro y
      have := abs_abs_sub_abs_le_abs_sub (x.withSign a) y.value
      rwa [abs_withSign x ha, Binary64.abs_value] at this
    refine ⟨hx, fun y hy => ?_, fun y hy hne heq => ?_⟩
    · rw [hown]
      exact (h.nearest y.units (representable_units y)).trans (hother y)
    · rw [hown] at heq
      have hle := h.nearest y.units (representable_units y)
      refine h.even y.units (representable_units y) (fun hunits => hne ?_)
        (le_antisymm (heq ▸ hother y) hle)
      exact value_eq_of_units_eq hx hy ha h hunits heq

/-! ## Near enough -/

/-- A magnitude that is nearer than any other. -/
theorem isNearestMagnitude_of_lt (hu : Representable u) {a : ℚ}
    (h : ∀ v, Representable v → v ≠ u → |a - inOnes u| < |a - inOnes v|) :
    IsNearestMagnitude a u := by
  refine ⟨hu, fun v hv => ?_, fun v hv hne heq => absurd heq (h v hv hne).ne'⟩
  by_cases hne : v = u
  · rw [hne]
  · exact (h v hv hne).le

/-- The neighbours of a magnitude are a spacing above and at least half of
it below. -/
theorem neighbour_cases (hu : Representable u) (hv : Representable v) (hne : v ≠ u) :
    inOnes u + inOnes (spacing u) ≤ inOnes v ∨
      inOnes v < inOnes u ∧ 2 * inOnes v + inOnes (spacing u) ≤ 2 * inOnes u := by
  rcases Nat.lt_or_gt_of_ne hne with hlt | hgt
  · right
    refine ⟨inOnes_lt_inOnes.mpr hlt, ?_⟩
    have h := inOnes_le_inOnes.mpr (spacing_le_of_lt hu hv hlt)
    rw [Nat.two_mul, Nat.two_mul, inOnes_add, inOnes_add, inOnes_add] at h
    linarith
  · left
    rw [← inOnes_add]
    exact inOnes_le_inOnes.mpr (add_spacing_le hu hv hgt)

/-- Less than a quarter of the spacing away, the magnitude is nearer than any
other. -/
theorem distance_lt_of_close (hu : Representable u) {a : ℚ}
    (h : 4 * |a - inOnes u| < inOnes (spacing u)) (hv : Representable v) (hne : v ≠ u) :
    |a - inOnes u| < |a - inOnes v| := by
  have htriangle := abs_sub_abs_le_abs_sub (inOnes v - inOnes u) (a - inOnes u)
  rw [sub_sub_sub_cancel_right, abs_sub_comm (inOnes v) a] at htriangle
  rcases neighbour_cases hu hv hne with habove | ⟨-, hbelow⟩
  · have := le_abs_self (inOnes v - inOnes u)
    linarith [abs_nonneg (a - inOnes u)]
  · have := neg_le_abs (inOnes v - inOnes u)
    linarith

/-- So near to a magnitude, it is the nearest one. -/
theorem isNearestMagnitude_iff_of_close (hu : Representable u) {a : ℚ}
    (h : 4 * |a - inOnes u| < inOnes (spacing u)) : IsNearestMagnitude a v ↔ v = u := by
  constructor
  · intro hv
    by_contra hne
    exact absurd (hv.nearest u hu) (not_le_of_gt (distance_lt_of_close hu h hv.representable hne))
  · rintro rfl
    exact isNearestMagnitude_of_lt hu fun w hw hne => distance_lt_of_close hu h hw hne

/-- Of two numbers above and below a magnitude, if it is nearest to the lower
one and the upper one is not as far, it is nearest to that too. -/
theorem IsNearestMagnitude.of_above {a b : ℚ} (h : IsNearestMagnitude a u) (h0 : 0 ≤ a)
    (ha : a < inOnes u) (hb : inOnes u ≤ b) (hcloser : b - inOnes u < inOnes u - a) :
    IsNearestMagnitude b u := by
  have hu := h.representable
  have hpos : 0 < u := inOnes_lt_inOnes.mp (inOnes_zero.trans_lt (h0.trans_lt ha))
  -- the magnitude a spacing below is not nearer to the lower number
  have hspacing : 2 * (inOnes u - a) ≤ inOnes (spacing u) := by
    have hstep : 0 < inOnes (spacing u) := inOnes_zero ▸ inOnes_lt_inOnes.mpr (spacing_pos u)
    have hlower : inOnes (u - spacing u) + inOnes (spacing u) = inOnes u := by
      have hdvd : spacing u ∣ u := hu.2
      rw [← inOnes_add, Nat.sub_add_cancel (Nat.le_of_dvd hpos hdvd)]
    have hnearest := h.nearest _ (representable_sub_spacing hu)
    rw [abs_of_nonpos (by linarith : a - inOnes u ≤ 0)] at hnearest
    rcases abs_choice (a - inOnes (u - spacing u)) with e | e <;> linarith
  refine isNearestMagnitude_of_lt hu fun v hv hne => ?_
  rw [abs_of_nonneg (sub_nonneg.mpr hb)]
  rcases neighbour_cases hu hv hne with habove | ⟨hlt, -⟩
  · rw [abs_of_nonpos (by linarith)]
    linarith
  · rw [abs_of_nonneg (by linarith)]
    linarith

/-- A magnitude that is nearest to two numbers is the only one between them. -/
theorem IsNearestMagnitude.eq_of_between {a b : ℚ} (ha : IsNearestMagnitude a u)
    (hb : IsNearestMagnitude b u) (hv : Representable v) (hav : a ≤ inOnes v)
    (hvb : inOnes v ≤ b) : u = v := by
  have h1 := ha.nearest v hv
  have h2 := hb.nearest v hv
  rw [abs_of_nonpos (by linarith : a - inOnes v ≤ 0)] at h1
  rw [abs_of_nonneg (by linarith : 0 ≤ b - inOnes v)] at h2
  have hle := neg_le_abs (a - inOnes u)
  have hge := le_abs_self (b - inOnes u)
  exact inOnes_injective (by linarith)

end Binary64

namespace Decimal

/-- Read as a double, a decimal is the nearest one. -/
theorem isNearestMagnitude_toBinary64 {d : Decimal} (h : d.toBinary64.isFinite = true) :
    Binary64.IsNearestMagnitude d.size d.toBinary64.units := by
  have hunits : d.toBinary64.units =
      Binary64.rounded (d.ratio.1 * Binary64.unitsPerOne) d.ratio.2 := by
    rw [units_eq_magnitude h, magnitude_toBinary64]
  rw [hunits, size_eq_ratio]
  exact Binary64.isNearestMagnitude_rounded d.ratio_pos (hunits ▸ d.toBinary64.units_lt)

end Decimal

end ContestGrading
