import ContestGrading.Proofs.Binary64.Arithmetic
import ContestGrading.Proofs.Decimal.Value
/-!
# The double nearest to a decimal

`toBinary64` answers early for decimals that are far out of range. That is
what the rounding would answer too, so that there is one rounding for all
decimals and it keeps their order.

Results:
* `toBinary64_eq`: the early answers are those of the rounding.
* `magnitude_toBinary64_mono`: the order of magnitudes is kept.
* `magnitude_toBinary64_of_size`: a magnitude of the format is nearest to itself.
-/
namespace ContestGrading.Decimal

open Binary64 (unitsPerOne overflowLimit rounded)

/-- The magnitude as a quotient of natural numbers. -/
def ratio (d : Decimal) : Nat × Nat :=
  match d.exponent with
  | .ofNat e => (d.coefficient * 10 ^ e, 1)
  | .negSucc e => (d.coefficient, 10 ^ (e + 1))

theorem ratio_pos (d : Decimal) : 0 < d.ratio.2 := by
  unfold ratio
  split
  · exact Nat.one_pos
  · exact Nat.pow_pos (by decide)

theorem size_eq_ratio (d : Decimal) : d.size = d.ratio.1 / d.ratio.2 := by
  obtain ⟨negative, coefficient, exponent⟩ := d
  cases exponent with
  | ofNat e =>
    simp only [size, ratio, Int.ofNat_eq_natCast, zpow_natCast]
    push_cast
    rw [div_one]
  | negSucc e =>
    simp only [size, ratio, zpow_negSucc]
    push_cast
    rw [div_eq_mul_inv]

/-! ## Out of range -/

theorem rounded_of_lt_half {num den : Nat} (h : 2 * num < den) : rounded num den = 0 := by
  have hq : num / den = 0 := Nat.div_eq_of_lt (by omega)
  have hspacing : Binary64.spacing 0 = 1 := rfl
  have hgrid : Binary64.onGrid num den = 0 := by
    rw [Binary64.onGrid, hq, hspacing, Nat.mul_one, Nat.mul_one, nearestEven, hq,
      Nat.mod_eq_of_lt (by omega)]
    simp [h]
  rw [rounded, hgrid]
  exact Nat.zero_min _

theorem ofUnits_overflowLimit (negative : Bool) :
    Binary64.ofUnits negative overflowLimit = .infinite negative :=
  dif_neg fun h => Nat.lt_irrefl _ h.1

/-- Far enough below one there is less than half a unit. -/
theorem rounded_of_small {c e k : Nat} (hk : 2 * unitsPerOne < 10 ^ k)
    (h : digitCount c + k < e + 1) : rounded (c * unitsPerOne) (10 ^ (e + 1)) = 0 := by
  refine rounded_of_lt_half ?_
  calc 2 * (c * unitsPerOne) = c * (2 * unitsPerOne) := Nat.mul_left_comm ..
    _ ≤ c * 10 ^ k := Nat.mul_le_mul_left c hk.le
    _ < 10 ^ digitCount c * 10 ^ k :=
        Nat.mul_lt_mul_of_pos_right (lt_pow_digitCount c) (Nat.pow_pos (by decide))
    _ = 10 ^ (digitCount c + k) := (Nat.pow_add ..).symm
    _ ≤ 10 ^ (e + 1) := Nat.pow_le_pow_right (by decide) h.le

/-- Far enough above one there is more than the overflow limit. -/
theorem rounded_of_large {num den k : Nat} (hk : overflowLimit ≤ 10 ^ k * unitsPerOne)
    (hd : 0 < den) (h : 10 ^ k * den ≤ num) : rounded (num * unitsPerOne) den = overflowLimit := by
  refine Binary64.rounded_of_overflow hd ?_
  calc overflowLimit * den ≤ 10 ^ k * unitsPerOne * den := Nat.mul_le_mul_right _ hk
    _ = 10 ^ k * den * unitsPerOne := Nat.mul_right_comm ..
    _ ≤ num * unitsPerOne := Nat.mul_le_mul_right _ h

/-- The powers of ten at which the early answers begin are far enough. -/
theorem early_limits : ∃ low high : Nat, low = 330 ∧ high = 310 ∧
    2 * unitsPerOne < 10 ^ low ∧ overflowLimit ≤ 10 ^ high * unitsPerOne :=
  ⟨330, 310, rfl, rfl, by decide +kernel⟩

/-- A decimal of at least `10 ^ k` has at least that as a quotient. -/
theorem pow_mul_ratio_le (d : Decimal) {k : Nat} (hc : 0 < d.coefficient)
    (h : (k : Int) < digitCount d.coefficient + d.exponent) : 10 ^ k * d.ratio.2 ≤ d.ratio.1 := by
  obtain ⟨negative, c, exponent⟩ := d
  have hle := pow_le_of_digitCount hc
  have hdc := digitCount_pos c
  dsimp only at h hle
  cases exponent with
  | ofNat e =>
    show 10 ^ k * 1 ≤ c * 10 ^ e
    simp only [Int.ofNat_eq_natCast] at h
    calc 10 ^ k * 1 = 10 ^ k := Nat.mul_one _
      _ ≤ 10 ^ (digitCount c - 1 + e) := Nat.pow_le_pow_right (by decide) (by omega)
      _ = 10 ^ (digitCount c - 1) * 10 ^ e := Nat.pow_add ..
      _ ≤ c * 10 ^ e := Nat.mul_le_mul_right _ hle
  | negSucc e =>
    show 10 ^ k * 10 ^ (e + 1) ≤ c
    rw [← Nat.pow_add]
    exact Nat.le_trans (Nat.pow_le_pow_right (by decide) (by omega)) hle

/-- The early answers are those of the rounding. -/
theorem toBinary64_eq (d : Decimal) :
    d.toBinary64 = .ofRatio d.negative (d.ratio.1 * unitsPerOne) d.ratio.2 := by
  obtain ⟨low, high, hlow, hhigh, hsmall, hlarge⟩ := early_limits
  unfold toBinary64
  dsimp only
  split
  next h =>
    have hzero : rounded (d.ratio.1 * unitsPerOne) d.ratio.2 = 0 := by
      obtain ⟨negative, c, exponent⟩ := d
      rcases h with h | h
      · replace h : c = 0 := h
        have h0 : (ratio ⟨negative, c, exponent⟩).1 = 0 := by cases exponent <;> simp [ratio, h]
        rw [h0, Nat.zero_mul, Binary64.rounded_zero (ratio_pos _)]
      · dsimp only at h
        cases exponent with
        | ofNat e => simp only [Int.ofNat_eq_natCast] at h; omega
        | negSucc e =>
          show rounded (c * unitsPerOne) (10 ^ (e + 1)) = 0
          exact rounded_of_small hsmall (by omega)
    rw [Binary64.ofRatio_eq, hzero, Binary64.ofUnits_units Binary64.representable_zero]
  next h =>
    split
    next hbig =>
      have hc : 0 < d.coefficient := Nat.pos_of_ne_zero fun h0 => h (.inl h0)
      rw [Binary64.ofRatio_eq,
        rounded_of_large hlarge d.ratio_pos (pow_mul_ratio_le d hc (by omega)),
        ofUnits_overflowLimit]
    next =>
      obtain ⟨negative, c, exponent⟩ := d
      cases exponent <;> rfl

/-! ## Order -/

theorem negative_toBinary64 (d : Decimal) : d.toBinary64.negative = d.negative := by
  rw [toBinary64_eq, Binary64.ofRatio_eq, Binary64.negative_ofUnits]

theorem toBinary64_ne_nan (d : Decimal) : d.toBinary64 ≠ .nan := by
  rw [toBinary64_eq, Binary64.ofRatio_eq]
  exact Binary64.ofUnits_ne_nan _ _

theorem magnitude_toBinary64 (d : Decimal) :
    d.toBinary64.magnitude = rounded (d.ratio.1 * unitsPerOne) d.ratio.2 := by
  rw [toBinary64_eq, Binary64.magnitude_ofRatio _ d.ratio_pos]

/-- A greater decimal is never nearest to a lesser double. -/
theorem magnitude_toBinary64_mono {d d' : Decimal} (h : d.size ≤ d'.size) :
    d.toBinary64.magnitude ≤ d'.toBinary64.magnitude := by
  rw [magnitude_toBinary64, magnitude_toBinary64]
  refine Binary64.rounded_mono d.ratio_pos d'.ratio_pos ?_
  rw [size_eq_ratio, size_eq_ratio, div_le_div_iff₀ (Nat.cast_pos.mpr d.ratio_pos)
    (Nat.cast_pos.mpr d'.ratio_pos)] at h
  have h : d.ratio.1 * d'.ratio.2 ≤ d'.ratio.1 * d.ratio.2 := by exact_mod_cast h
  calc d.ratio.1 * unitsPerOne * d'.ratio.2 = d.ratio.1 * d'.ratio.2 * unitsPerOne :=
        Nat.mul_right_comm ..
    _ ≤ d'.ratio.1 * d.ratio.2 * unitsPerOne := Nat.mul_le_mul_right _ h
    _ = d'.ratio.1 * unitsPerOne * d.ratio.2 := Nat.mul_right_comm ..

/-- A decimal that denotes a magnitude of the format is read as that. -/
theorem magnitude_toBinary64_of_size {d : Decimal} {units : Nat}
    (hu : Binary64.Representable units) (h : d.size = inOnes units) :
    d.toBinary64.magnitude = units := by
  rw [size_eq_ratio, inOnes, div_eq_div_iff (Nat.cast_ne_zero.mpr d.ratio_pos.ne')
    unitsPerOne_cast_pos.ne'] at h
  have h : d.ratio.1 * unitsPerOne = units * d.ratio.2 := by exact_mod_cast h
  rw [magnitude_toBinary64, h, Binary64.rounded_mul_self d.ratio_pos (.inl hu)]

/-! ## Order -/

variable {d : Decimal} {x : Binary64}

theorem zero_le_toBinary64 (hd : d.negative = false) : Binary64.zero ≤ d.toBinary64 :=
  Binary64.nonneg_iff.mpr ⟨toBinary64_ne_nan d, fun h => by
    rw [negative_toBinary64, hd] at h
    cases h⟩

/-- What is not above a double is not read as more. -/
theorem toBinary64_le (hd : d.negative = false) (hx : Binary64.zero ≤ x)
    (h : d.size ≤ inOnes x.magnitude) : d.toBinary64 ≤ x := by
  rw [size_eq_ratio, inOnes, div_le_div_iff₀ (Nat.cast_pos.mpr d.ratio_pos)
    unitsPerOne_cast_pos] at h
  rw [Binary64.le_iff_magnitude (zero_le_toBinary64 hd) hx, magnitude_toBinary64]
  exact Binary64.rounded_le d.ratio_pos x.magnitude_cases (by exact_mod_cast h)

/-- What is not below a double is not read as less. -/
theorem le_toBinary64 (hd : d.negative = false) (hx : Binary64.zero ≤ x)
    (h : inOnes x.magnitude ≤ d.size) : x ≤ d.toBinary64 := by
  rw [size_eq_ratio, inOnes, div_le_div_iff₀ unitsPerOne_cast_pos
    (Nat.cast_pos.mpr d.ratio_pos)] at h
  rw [Binary64.le_iff_magnitude hx (zero_le_toBinary64 hd), magnitude_toBinary64]
  exact Binary64.le_rounded d.ratio_pos x.magnitude_cases (by exact_mod_cast h)

end ContestGrading.Decimal
