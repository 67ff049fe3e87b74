import ContestGrading.Proofs.Decimal.NearestDouble
import ContestGrading.Proofs.Grading.Fractions
/-!
# Fractions at the ends of their range

Outcomes between zero and one are multiplied, or added up and divided by
their number, with a rounding at every step. A product of fractions is one
only if all of them are, but it may vanish without any of them. A mean is one
only if the rounded sum is the number of its terms, which it may be if the
terms are nearly one; and it vanishes if the exact mean is at most half of the
smallest magnitude.

Results:
* `rounded_eq_zero_iff`, `one_le_div_iff`: what is rounded to zero, and which
  quotients are rounded to one or more.
* `one_le_product_iff`, `product_le_zero_iff`: the ends of a product.
* `magnitude_sum_excess`: how much more a rounded sum is than the exact one.
* `one_le_mean_iff`, `mean_le_zero_iff`: the ends of a mean.
-/
namespace ContestGrading.Binary64

variable {x y a : Binary64} {xs : List Binary64}

/-! ## Rounding to zero and to one -/

/-- Up to `2 ^ 53` units every magnitude is one of the format. -/
theorem representable_of_le {units : Nat} (h : units ≤ 2 ^ 53) : Representable units := by
  have hlt : 2 ^ 53 < overflowLimit := by decide +kernel
  have hrep := @representable_mul_pow units 0 h (by omega)
  rwa [Nat.pow_zero, Nat.mul_one] at hrep

/-- Half a unit is rounded to zero, and anything above it is not. -/
theorem rounded_eq_zero_iff {num den : Nat} (hd : 0 < den) :
    rounded num den = 0 ↔ 2 * num ≤ den := by
  rcases Nat.lt_or_ge num den with hlt | hge
  · have hgrid : onGrid num den = nearestEven num den := by
      have hspacing : spacing 0 = 1 := rfl
      rw [onGrid, Nat.div_eq_of_lt hlt, hspacing, Nat.mul_one, Nat.mul_one]
    have hlimit := overflowLimit_pos
    rw [rounded, hgrid]
    have hcases := nearestEven_cases num den
    rw [Nat.div_eq_of_lt hlt, Nat.mod_eq_of_lt hlt] at hcases
    rcases hcases with ⟨he, hr⟩ | ⟨he, hr⟩ <;> omega
  · have hone : 1 ≤ rounded num den :=
      le_rounded hd (.inl (representable_of_le (by decide))) (by omega)
    omega

/-- The greatest magnitude below one. -/
def belowOne : Nat := (2 ^ 53 - 1) * 2 ^ 1021

theorem belowOne_facts :
    Representable belowOne ∧ 2 ^ 53 * belowOne = (2 ^ 53 - 1) * unitsPerOne := by
  decide +kernel

theorem belowOne_lt : belowOne < unitsPerOne := by decide +kernel

/-- A quotient is rounded to one or more only if the exact one is so much. -/
theorem one_le_div_iff (hx : zero ≤ x) (hy : zero ≤ y) (fx : x.isFinite = true)
    (fy : y.isFinite = true) (h0 : 0 < y.magnitude) : one ≤ x / y ↔ y ≤ x := by
  obtain ⟨hdiv, hmagnitude⟩ := magnitude_div hx hy fx fy h0
  rw [le_iff_magnitude zero_le_one hdiv, le_iff_magnitude hy hx, hmagnitude, magnitude_one]
  constructor
  · intro h
    by_contra hlt
    obtain ⟨s, u, hu, rfl⟩ := exists_of_isFinite fx
    obtain ⟨t, v, hv, rfl⟩ := exists_of_isFinite fy
    simp only [magnitude_finite] at h hlt h0
    have hle : u * unitsPerOne ≤ belowOne * v := by
      have hmul := Nat.mul_le_mul_right unitsPerOne (two_pow_mul_le hu hv (Nat.lt_of_not_le hlt))
      have hbelow := belowOne_facts.2
      refine Nat.le_of_mul_le_mul_left ?_ (Nat.two_pow_pos 53)
      calc 2 ^ 53 * (u * unitsPerOne) = 2 ^ 53 * u * unitsPerOne := (Nat.mul_assoc ..).symm
        _ ≤ (2 ^ 53 - 1) * v * unitsPerOne := hmul
        _ = (2 ^ 53 - 1) * unitsPerOne * v := Nat.mul_right_comm ..
        _ = 2 ^ 53 * (belowOne * v) := by rw [← hbelow, Nat.mul_assoc]
    have hround := rounded_le h0 (.inl belowOne_facts.1) hle
    exact absurd (Nat.le_trans h hround) (Nat.not_le_of_lt belowOne_lt)
  · intro h
    refine le_rounded h0 (.inl representable_one) ?_
    rw [Nat.mul_comm]
    exact Nat.mul_le_mul_right _ h

/-! ## Products -/

/-- A product of fractions is no greater than either of them. -/
theorem mul_le_of_isFraction (hx : IsFraction x) (hy : IsFraction y) : x * y ≤ x ∧ x * y ≤ y := by
  have hone : ∀ {x y : Binary64}, IsFraction x → IsFraction y → x * y ≤ y := fun hx hy => by
    have hmul := mul_le_mul hx.1 hy.1 hx.2 rfl hy.isFinite
    rwa [one_mul hy.isFinite] at hmul
  exact ⟨mul_comm x y ▸ hone hy hx, hone hx hy⟩

/-- Further fractions make a product no greater, and each of them bounds it. -/
theorem foldl_mul_le_start (h : ∀ x ∈ xs, IsFraction x) (ha : IsFraction a) :
    xs.foldl (· * ·) a ≤ a ∧ ∀ x ∈ xs, xs.foldl (· * ·) a ≤ x := by
  induction xs generalizing a with
  | nil => exact ⟨le_refl_of_not_nan ha.ne_nan, nofun⟩
  | cons x xs ih =>
    obtain ⟨hx, hxs⟩ := List.forall_mem_cons.mp h
    obtain ⟨hstart, hall⟩ := ih hxs (isFraction_mul ha hx)
    obtain ⟨hleft, hright⟩ := mul_le_of_isFraction ha hx
    exact ⟨le_trans hstart hleft, List.forall_mem_cons.mpr ⟨le_trans hstart hright, hall⟩⟩

theorem product_le (h : ∀ x ∈ xs, IsFraction x) : ∀ x ∈ xs, product xs ≤ x :=
  (foldl_mul_le_start h isFraction_one).2

/-- A fraction that is no less than one is one. -/
theorem IsFraction.eq_one (h : IsFraction x) (h1 : one ≤ x) : x = one := by
  have hmagnitude : one.magnitude = x.magnitude :=
    Nat.le_antisymm ((le_iff_magnitude zero_le_one h.1).mp h1) h.magnitude_le
  exact (eq_of_magnitude zero_le_one h.1 hmagnitude unitsPerOne_pos).symm

/-- A product of fractions is one only if all of them are. -/
theorem one_le_product_iff (h : ∀ x ∈ xs, IsFraction x) :
    one ≤ product xs ↔ ∀ x ∈ xs, one ≤ x := by
  constructor
  · intro hone x hx
    exact le_trans hone (product_le h x hx)
  · intro hone
    rw [product_ones fun x hx => (h x hx).eq_one (hone x hx)]
    exact isFraction_one.2

/-! ## Exact values -/

theorem unitsPerOne_eq : unitsPerOne = 2 ^ 1074 := by decide +kernel

theorem two_pow_eq_units : (2 : ℚ) ^ 1075 = 2 * unitsPerOne := by
  rw [unitsPerOne_eq, Nat.cast_pow]
  exact pow_succ' 2 1074

theorem le_zero_iff (hx : zero ≤ x) : x ≤ zero ↔ x.magnitude = 0 := by
  rw [le_iff_magnitude hx zero_le_zero, magnitude_zero, Nat.le_zero]

/-- A product of fractions vanishes if the exact one is at most half of the
smallest magnitude. -/
theorem mul_le_zero_iff (hx : IsFraction x) (hy : IsFraction y) :
    x * y ≤ zero ↔ x.value * y.value ≤ 1 / 2 ^ 1075 := by
  obtain ⟨h0, hmagnitude⟩ := magnitude_mul hx.1 hy.1 hx.isFinite hy.isFinite
  rw [le_zero_iff h0, hmagnitude, rounded_eq_zero_iff unitsPerOne_pos,
    value_of_nonneg hx.1 hx.isFinite, value_of_nonneg hy.1 hy.isFinite]
  have hpos : (0 : ℚ) < unitsPerOne := Nat.cast_pos.mpr unitsPerOne_pos
  have hcross : (x.magnitude * y.magnitude * 2 ^ 1075 : ℚ) =
      (2 * (x.magnitude * y.magnitude) : Nat) * unitsPerOne := by
    rw [two_pow_eq_units]
    push_cast
    ring
  have hsquare : (1 * (unitsPerOne * unitsPerOne) : ℚ) = unitsPerOne * unitsPerOne := by ring
  rw [div_mul_div_comm, div_le_div_iff₀ (by positivity) (by positivity), hcross, hsquare,
    mul_le_mul_iff_left₀ hpos, Nat.cast_le]

/-- The product is lost: at some factor the exact product of what has come of
those before it with the factor is not zero, and no greater than half of the
smallest magnitude. -/
def Vanishes (xs : List Binary64) : Prop :=
  ∃ before x after, xs = before ++ x :: after ∧ ¬ product before ≤ zero ∧ ¬ x ≤ zero ∧
    (product before).value * x.value ≤ 1 / 2 ^ 1075

/-- Where a product gets to zero, a factor is zero or two of them vanish. -/
theorem foldl_mul_le_zero (h : ∀ x ∈ xs, IsFraction x) (ha0 : ¬ a ≤ zero)
    (hzero : xs.foldl (· * ·) a ≤ zero) :
    (∃ x ∈ xs, x ≤ zero) ∨ ∃ before x after, xs = before ++ x :: after ∧
      ¬ before.foldl (· * ·) a ≤ zero ∧ ¬ x ≤ zero ∧ before.foldl (· * ·) a * x ≤ zero := by
  induction xs generalizing a with
  | nil => exact absurd hzero ha0
  | cons x xs ih =>
    obtain ⟨hx, hxs⟩ := List.forall_mem_cons.mp h
    by_cases hx0 : x ≤ zero
    · exact .inl ⟨x, List.mem_cons_self .., hx0⟩
    by_cases hmul : a * x ≤ zero
    · exact .inr ⟨[], x, xs, rfl, ha0, hx0, hmul⟩
    · rcases ih hxs hmul hzero with ⟨y, hy, hy0⟩ | ⟨before, y, after, rfl, hbefore⟩
      · exact .inl ⟨y, List.mem_cons_of_mem _ hy, hy0⟩
      · exact .inr ⟨x :: before, y, after, rfl, hbefore⟩

/-- A product of fractions is zero if a factor is, or if it vanishes. -/
theorem product_le_zero_iff (h : ∀ x ∈ xs, IsFraction x) :
    product xs ≤ zero ↔ (∃ x ∈ xs, x ≤ zero) ∨ Vanishes xs := by
  have hpart : ∀ {before x after}, xs = before ++ x :: after →
      IsFraction (product before) ∧ IsFraction x ∧ ∀ y ∈ after, IsFraction y := by
    rintro before x after rfl
    obtain ⟨hbefore, hrest⟩ := List.forall_mem_append.mp h
    obtain ⟨hx, hafter⟩ := List.forall_mem_cons.mp hrest
    exact ⟨isFraction_foldl_mul hbefore isFraction_one, hx, hafter⟩
  constructor
  · intro hzero
    rcases foldl_mul_le_zero h not_one_le_zero hzero with
      hfactor | ⟨before, x, after, hxs, hbefore, hx, hmul⟩
    · exact .inl hfactor
    · obtain ⟨hproduct, hfraction, -⟩ := hpart hxs
      exact .inr ⟨before, x, after, hxs, hbefore, hx, (mul_le_zero_iff hproduct hfraction).mp hmul⟩
  · rintro (⟨x, hx, hx0⟩ | ⟨before, x, after, hxs, -, -, hsmall⟩)
    · exact le_trans (product_le h x hx) hx0
    · obtain ⟨hproduct, hfraction, hafter⟩ := hpart hxs
      have hmul := (mul_le_zero_iff hproduct hfraction).mpr hsmall
      have hrest := (foldl_mul_le_start hafter (isFraction_mul hproduct hfraction)).1
      rw [hxs, product, List.foldl_append, List.foldl_cons]
      exact le_trans hrest hmul

/-! ## Sums and means -/

/-- Below `2 ^ 53` units a sum is exact. -/
theorem min_magnitude_foldl {m : Nat} (h : ∀ x ∈ xs, zero ≤ x) (ha : zero ≤ a)
    (hm : Min.min a.magnitude (2 ^ 53) = Min.min m (2 ^ 53)) :
    Min.min (xs.foldl (· + ·) a).magnitude (2 ^ 53) =
      Min.min (m + (xs.map magnitude).sum) (2 ^ 53) := by
  induction xs generalizing a m with
  | nil => exact hm
  | cons x xs ih =>
    obtain ⟨hx, hxs⟩ := List.forall_mem_cons.mp h
    have hstep := @min_magnitude_add_multiple 1 m x.magnitude Nat.one_pos
      (fun _ hk => by rw [Nat.mul_one]; exact representable_of_le hk) a x ha (by simpa using hm) hx
      (Nat.mul_one _).symm
    have hnext := ih hxs (add_nonneg ha hx) (by simpa using hstep)
    rwa [Nat.add_assoc, ← List.sum_cons, ← List.map_cons] at hnext

/-- A rounded magnitude is at most one part in `2 ^ 53` greater. -/
theorem two_pow_mul_rounded_le (m : Nat) : 2 ^ 53 * rounded m 1 ≤ 2 ^ 53 * m + m := by
  rcases Nat.lt_or_ge m (2 ^ 53) with hlt | hge
  · rw [rounded_one (.inl (representable_of_le (Nat.le_of_lt hlt)))]
    exact Nat.le_add_right _ _
  · have hlog : 52 ≤ m.log2 := (Nat.le_log2 (by omega)).mpr (by omega)
    have hspacing : 2 ^ 52 * spacing m ≤ m :=
      two_pow_mul_spacing hlog ▸ Nat.log2_self_le (by omega)
    have hgrid : rounded m 1 ≤ nearestEven m (spacing m) * spacing m := by
      refine Nat.le_trans (Nat.min_le_left _ _) ?_
      rw [onGrid, Nat.div_one, Nat.one_mul]
    have hbounds := (nearestEven_bounds m (spacing_pos m)).1
    omega

/-- A sum of fractions that is rounded at every step is not much more than
the exact one. -/
theorem magnitude_foldl_excess {m σ : Nat} (h : ∀ x ∈ xs, IsFraction x) (ha : zero ≤ a)
    (hlen : m + xs.length ≤ 2 ^ 53) (hm : a.magnitude ≤ m * unitsPerOne)
    (hσ : 2 ^ 54 * a.magnitude ≤ 2 ^ 54 * σ + m * (m + 1) * unitsPerOne) :
    2 ^ 54 * (xs.foldl (· + ·) a).magnitude ≤ 2 ^ 54 * (σ + (xs.map magnitude).sum) +
      (m + xs.length) * (m + xs.length + 1) * unitsPerOne := by
  induction xs generalizing a m σ with
  | nil => exact hσ
  | cons x xs ih =>
    obtain ⟨hx, hxs⟩ := List.forall_mem_cons.mp h
    rw [List.length_cons] at hlen
    obtain ⟨h0, hadd⟩ := magnitude_add ha hx.1
    have hexact : a.magnitude + x.magnitude ≤ (m + 1) * unitsPerOne := by
      rw [Nat.add_mul, Nat.one_mul]
      exact Nat.add_le_add hm hx.magnitude_le
    have hnext : (a + x).magnitude ≤ (m + 1) * unitsPerOne := by
      rw [hadd]
      exact rounded_le Nat.one_pos (.inl (representable_mul_unitsPerOne (by omega)))
        (by rwa [Nat.mul_one])
    have hrounded := two_pow_mul_rounded_le (a.magnitude + x.magnitude)
    rw [← hadd] at hrounded
    have hexcess : 2 ^ 54 * (a + x).magnitude ≤
        2 ^ 54 * (σ + x.magnitude) + (m + 1) * (m + 1 + 1) * unitsPerOne := by
      have hsplit : (m + 1) * (m + 1 + 1) * unitsPerOne =
          m * (m + 1) * unitsPerOne + 2 * ((m + 1) * unitsPerOne) := by ring
      omega
    have hrest := ih hxs h0 (by omega) hnext hexcess
    rwa [Nat.add_assoc, ← List.sum_cons, ← List.map_cons, Nat.add_right_comm m 1,
      Nat.add_assoc m] at hrest

/-- The exact sum of fractions. -/
theorem sum_value (h : ∀ x ∈ xs, IsFraction x) :
    (xs.map value).sum = ((xs.map magnitude).sum : Nat) / (unitsPerOne : ℚ) := by
  induction xs with
  | nil => simp
  | cons x xs ih =>
    obtain ⟨hx, hxs⟩ := List.forall_mem_cons.mp h
    rw [List.map_cons, List.map_cons, List.sum_cons, List.sum_cons, ih hxs,
      value_of_nonneg hx.1 hx.isFinite, Nat.cast_add, add_div]

variable (h : ∀ x ∈ xs, IsFraction x) (hne : xs ≠ []) (hlen : xs.length ≤ 2 ^ 53)

include hne hlen

/-- The length of a list that is not too long is a double. -/
theorem ofNat_length : zero ≤ ofNat xs.length ∧ (ofNat xs.length).isFinite = true ∧
    (ofNat xs.length).magnitude = xs.length * unitsPerOne ∧ 0 < (ofNat xs.length).magnitude := by
  refine ⟨zero_le_ofNat _, ?_, magnitude_ofNat_of_le hlen,
    magnitude_ofNat_pos (List.length_pos_iff.mpr hne)⟩
  rw [ofNat, ofRatio_representable (representable_mul_unitsPerOne hlen)]
  rfl

include h

/-- The mean is one only if the rounded sum is the number of its terms. -/
theorem one_le_mean_iff : one ≤ sum xs / ofNat xs.length ↔ sum xs = ofNat xs.length := by
  obtain ⟨hn0, hfinite, -, hpos⟩ := ofNat_length hne hlen
  have h0 := (magnitude_sum_le h).1
  rw [one_le_div_iff h0 hn0 (isFinite_sum h) hfinite hpos]
  constructor
  · intro hle
    have hge := (le_iff_magnitude h0 hn0).mp (sum_le_ofNat h)
    have hmagnitude := Nat.le_antisymm hge ((le_iff_magnitude hn0 h0).mp hle)
    exact eq_of_magnitude h0 hn0 hmagnitude (hmagnitude ▸ hpos)
  · intro heq
    rw [heq]
    exact le_refl_of_not_nan (nonneg_iff.mp hn0).1

/-- If it is one, the exact sum is nearly the number of its terms. -/
theorem lack_of_sum_eq (hsum : sum xs = ofNat xs.length) :
    xs.length - (xs.map value).sum ≤ (xs.length * (xs.length + 1) : ℚ) / 2 ^ 54 := by
  obtain ⟨-, -, hlength, -⟩ := ofNat_length hne hlen
  have hexcess := @magnitude_foldl_excess zero xs 0 0 h zero_le_zero (by omega) (by simp) (by simp)
  rw [← sum, hsum, hlength, Nat.zero_add, Nat.zero_add] at hexcess
  have hpos : (0 : ℚ) < unitsPerOne := Nat.cast_pos.mpr unitsPerOne_pos
  have hexcess : (2 ^ 54 * (xs.length * unitsPerOne) : ℚ) ≤
      2 ^ 54 * ((xs.map magnitude).sum : Nat) + xs.length * (xs.length + 1) * unitsPerOne := by
    exact_mod_cast hexcess
  rw [sum_value h, sub_le_iff_le_add, div_add_div _ _ (by positivity) hpos.ne',
    le_div_iff₀ (by positivity)]
  linarith

/-- The mean is zero only if the exact one is at most half of the smallest
magnitude. -/
theorem mean_le_zero_iff :
    sum xs / ofNat xs.length ≤ zero ↔ (xs.map value).sum ≤ (xs.length : ℚ) / 2 ^ 1075 := by
  obtain ⟨hn0, hfinite, hlength, hpos⟩ := ofNat_length hne hlen
  have h0 := (magnitude_sum_le h).1
  obtain ⟨hmean, hmagnitude⟩ := magnitude_div h0 hn0 (isFinite_sum h) hfinite hpos
  have hexact : 2 * (sum xs).magnitude ≤ xs.length ↔ 2 * (xs.map magnitude).sum ≤ xs.length := by
    have hsmall := @min_magnitude_foldl zero xs 0 (fun x hx => (h x hx).1) zero_le_zero rfl
    rw [← sum, Nat.zero_add] at hsmall
    omega
  have hunits : (0 : ℚ) < unitsPerOne := Nat.cast_pos.mpr unitsPerOne_pos
  rw [le_zero_iff hmean, hmagnitude, rounded_eq_zero_iff hpos, hlength, ← Nat.mul_assoc,
    Nat.mul_le_mul_right_iff unitsPerOne_pos, hexact, sum_value h, two_pow_eq_units,
    div_le_div_iff₀ hunits (by positivity)]
  have hcross : (((xs.map magnitude).sum : Nat) * (2 * unitsPerOne) : ℚ) =
      (2 * (xs.map magnitude).sum : Nat) * unitsPerOne := by
    push_cast
    ring
  rw [hcross, mul_le_mul_iff_left₀ hunits, Nat.cast_le]

end ContestGrading.Binary64
