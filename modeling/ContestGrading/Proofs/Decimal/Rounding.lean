import ContestGrading.Proofs.Decimal.Value
/-!
# Rounding to significant digits and to places

The rounding to significant digits is the nearest number with that many
digits, and where it does not pass the next power of ten it is the rounding
to places that ends at the same digit. Both roundings keep the order.

Results:
* `toSignificant_cases`: the coefficient and what a carry does.
* `toSignificant_bounds`: the coefficient has exactly the digits asked for.
* `size_toSignificant_mono`: the order of magnitudes is kept.
* `toSignificant_eq_toFixed`: the same rounding to places.
-/
namespace ContestGrading.Decimal

variable {x y : Binary64} {p : Nat}

theorem isZero_of_units_pos (hx : 0 < x.units) : x.isZero = false := by
  cases x with
  | finite s u h => exact beq_false_of_ne (Nat.ne_of_gt hx)
  | nan => rfl
  | infinite s => rfl

theorem isZero_of_units_eq_zero (hx : x.isFinite = true) (h : x.units = 0) : x.isZero = true := by
  cases x with
  | finite s u hu => exact beq_iff_eq.mpr h
  | nan => cases hx
  | infinite s => cases hx

theorem units_eq_zero_of_isZero (h : x.isZero = true) : x.units = 0 := by
  cases x with
  | nan => rfl
  | infinite s => rfl
  | finite s u hu => exact beq_iff_eq.mp h

theorem isFinite_of_units_pos (hx : 0 < x.units) : x.isFinite = true := by
  cases x with
  | finite s u h => rfl
  | nan => exact absurd hx (Nat.lt_irrefl 0)
  | infinite s => exact absurd hx (Nat.lt_irrefl 0)

theorem size_toSignificant_of_units_eq_zero (hx : x.isFinite = true) (h : x.units = 0) (p : Nat) :
    (x.toSignificant p).size = 0 := by
  rw [Binary64.toSignificant, if_pos (isZero_of_units_eq_zero hx h)]
  simp [size]

/-- The exponent is that of the leading digit. -/
theorem le_decimalExponent_iff (hx : 0 < x.units) {k : ℤ} :
    k ≤ x.decimalExponent ↔ (10 : ℚ) ^ k ≤ inOnes x.units := by
  obtain ⟨hlow, hhigh⟩ := leadingExponent_bounds hx Binary64.unitsPerOne_pos
  rw [← inOnes, ← Binary64.decimalExponent] at hlow hhigh
  constructor
  · intro h
    exact (zpow_le_zpow_right₀ (by norm_num) h).trans hlow
  · intro h
    have hlt := (zpow_lt_zpow_iff_right₀ (by norm_num : (1 : ℚ) < 10)).mp (h.trans_lt hhigh)
    omega

theorem decimalExponent_lt_iff (hx : 0 < x.units) {k : ℤ} :
    x.decimalExponent < k ↔ inOnes x.units < (10 : ℚ) ^ k := by
  rw [← not_le, ← not_le, le_decimalExponent_iff hx]

/-- The exponent of the last of `p` significant digits. -/
def lastExponent (p : Nat) (x : Binary64) : Int := x.decimalExponent + 1 - p

theorem inOnes_bounds (hx : 0 < x.units) (p : Nat) :
    (10 : ℚ) ^ p ≤ inOnes x.units / 10 ^ lastExponent (p + 1) x ∧
      inOnes x.units / 10 ^ lastExponent (p + 1) x < 10 ^ (p + 1) := by
  obtain ⟨hle, hlt⟩ := leadingExponent_bounds hx Binary64.unitsPerOne_pos
  rw [← Binary64.decimalExponent, ← inOnes] at hle hlt
  have hpos : (0 : ℚ) < 10 ^ lastExponent (p + 1) x := by positivity
  rw [le_div_iff₀ hpos, div_lt_iff₀ hpos, ← zpow_natCast, ← zpow_natCast,
    ← zpow_add₀ (by norm_num), ← zpow_add₀ (by norm_num)]
  have e1 : (p : Int) + lastExponent (p + 1) x = x.decimalExponent := by
    unfold lastExponent; omega
  have e2 : ((p + 1 : Nat) : Int) + lastExponent (p + 1) x = x.decimalExponent + 1 := by
    unfold lastExponent; omega
  rw [e1, e2]
  exact ⟨hle, hlt⟩

/-- The rounding to `p + 1` significant digits, with or without a carry. -/
theorem toSignificant_cases (hx : 0 < x.units) (p : Nat) :
    ∃ c, IsNearestUp (inOnes x.units / 10 ^ lastExponent (p + 1) x) c ∧ 10 ^ p ≤ c ∧
      (c < 10 ^ (p + 1) ∧ x.toSignificant (p + 1) = ⟨x.negative, c, lastExponent (p + 1) x⟩ ∨
        c = 10 ^ (p + 1) ∧
          x.toSignificant (p + 1) = ⟨x.negative, 10 ^ p, lastExponent (p + 1) x + 1⟩) := by
  obtain ⟨hle, hlt⟩ := inOnes_bounds hx p
  have hnear := isNearestUp_nearestUp
    (Binary64.overPowerOfTen x.units (lastExponent (p + 1) x)).1
    (overPowerOfTen_pos x.units (lastExponent (p + 1) x))
  rw [overPowerOfTen_eq] at hnear
  refine ⟨_, hnear, hnear.ge_of_ge (by exact_mod_cast hle), ?_⟩
  have hc := hnear.le_of_le (n := 10 ^ (p + 1)) (by push_cast; exact hlt.le)
  rw [Binary64.toSignificant, isZero_of_units_pos hx]
  dsimp only
  rw [← lastExponent]
  rcases Nat.lt_or_eq_of_le hc with hc | hc
  · exact .inl ⟨hc, by simp [powerOfTen_eq, Nat.ne_of_lt hc]⟩
  · exact .inr ⟨hc, by simp [powerOfTen_eq, hc]⟩

theorem toSignificant_bounds (hx : 0 < x.units) (p : Nat) :
    10 ^ p ≤ (x.toSignificant (p + 1)).coefficient ∧
      (x.toSignificant (p + 1)).coefficient < 10 ^ (p + 1) := by
  obtain ⟨c, -, hle, ⟨hlt, e⟩ | ⟨-, e⟩⟩ := toSignificant_cases hx p
  · rw [e]
    exact ⟨hle, hlt⟩
  · rw [e]
    exact ⟨Nat.le_refl _, Nat.pow_lt_pow_right (by decide) (Nat.lt_succ_self _)⟩

theorem size_toSignificant_pos (hx : 0 < x.units) (p : Nat) :
    0 < (x.toSignificant (p + 1)).size := by
  have := Nat.lt_of_lt_of_le (Nat.pow_pos (by decide)) (toSignificant_bounds hx p).1
  unfold size
  positivity

theorem toSignificant_negative (hx : 0 < x.units) (p : Nat) :
    (x.toSignificant (p + 1)).negative = x.negative := by
  obtain ⟨c, -, -, ⟨-, e⟩ | ⟨-, e⟩⟩ := toSignificant_cases hx p <;> rw [e]

/-- With a carry or without, the magnitude is that of the nearest coefficient. -/
theorem size_toSignificant (hx : 0 < x.units) (p : Nat) :
    ∃ c : Nat, IsNearestUp (inOnes x.units / 10 ^ lastExponent (p + 1) x) c ∧
      10 ^ p ≤ c ∧ c ≤ 10 ^ (p + 1) ∧
      (x.toSignificant (p + 1)).size = c * 10 ^ lastExponent (p + 1) x := by
  obtain ⟨c, hnear, hle, ⟨hlt, e⟩ | ⟨hc, e⟩⟩ := toSignificant_cases hx p
  · exact ⟨c, hnear, hle, hlt.le, by rw [e, size]⟩
  · refine ⟨c, hnear, hle, hc.le, ?_⟩
    rw [e, size, hc, zpow_add₀ (by norm_num)]
    push_cast
    ring

theorem lastExponent_mono (hx : 0 < x.units) (h : x.units ≤ y.units) :
    x.decimalExponent ≤ y.decimalExponent := by
  have hlow := (le_decimalExponent_iff hx).mp le_rfl
  exact (le_decimalExponent_iff (Nat.lt_of_lt_of_le hx h)).mpr
    (hlow.trans (inOnes_le_inOnes.mpr h))

/-- A greater magnitude never rounds to a lesser one. -/
theorem size_toSignificant_mono (hx : 0 < x.units) (h : x.units ≤ y.units) (p : Nat) :
    (x.toSignificant (p + 1)).size ≤ (y.toSignificant (p + 1)).size := by
  obtain ⟨c, hc, -, hcle, ex⟩ := size_toSignificant hx p
  obtain ⟨d, hd, hdle, -, ey⟩ := size_toSignificant (Nat.lt_of_lt_of_le hx h) p
  rw [ex, ey]
  rcases eq_or_lt_of_le (lastExponent_mono hx h) with he | he
  · have he : lastExponent (p + 1) x = lastExponent (p + 1) y := by
      unfold lastExponent; omega
    rw [he] at hc ⊢
    have hcd : c ≤ d := by
      refine hc.mono hd ?_
      have := inOnes_le_inOnes.mpr h
      gcongr
    gcongr
  · -- the greater one starts where all roundings of the lesser one end
    have he : lastExponent (p + 1) x + 1 ≤ lastExponent (p + 1) y := by
      unfold lastExponent; omega
    calc (c : ℚ) * 10 ^ lastExponent (p + 1) x
        ≤ (10 ^ (p + 1) : Nat) * 10 ^ lastExponent (p + 1) x := by gcongr
      _ = (10 ^ p : Nat) * 10 ^ (lastExponent (p + 1) x + 1) := by
          rw [zpow_add₀ (by norm_num)]
          push_cast
          ring
      _ ≤ (10 ^ p : Nat) * 10 ^ lastExponent (p + 1) y := by
          gcongr
          norm_num
      _ ≤ d * 10 ^ lastExponent (p + 1) y := by gcongr

/-! ## Rounding to places -/

theorem toFixed_nearest (places : Nat) (x : Binary64) :
    IsNearestUp (inOnes x.units * 10 ^ places) (x.toFixed places).coefficient := by
  have := isNearestUp_nearestUp (x.units * 10 ^ places) Binary64.unitsPerOne_pos
  rw [Nat.cast_mul, mul_div_right_comm, ← inOnes, Nat.cast_pow] at this
  exact this

/-- Where the last significant digit is a decimal place, both roundings agree. -/
theorem toSignificant_eq_toFixed (hx : 0 < x.units) {p places : Nat}
    (h : (x.toSignificant (p + 1)).exponent = -places) :
    x.toSignificant (p + 1) = x.toFixed places := by
  have hnearest := toFixed_nearest places x
  have hsign : (x.toFixed places).negative = x.negative := by
    simp [Binary64.toFixed, isZero_of_units_pos hx]
  have hexponent : (x.toFixed places).exponent = -places := rfl
  generalize x.toFixed places = d at hnearest hsign hexponent
  obtain ⟨negative, coefficient, exponent⟩ := d
  subst hsign hexponent
  obtain ⟨c, hc, -, ⟨-, e⟩ | ⟨hcarry, e⟩⟩ := toSignificant_cases hx p
  · rw [e] at h ⊢
    replace h : lastExponent (p + 1) x = -places := h
    rw [h, zpow_neg, zpow_natCast, div_inv_eq_mul] at hc
    rw [h, hc.unique hnearest]
  · rw [e] at h ⊢
    replace h : lastExponent (p + 1) x + 1 = -places := h
    have hgrid : inOnes x.units * 10 ^ places =
        inOnes x.units / 10 ^ lastExponent (p + 1) x / 10 := by
      have e10 : (10 : ℚ) ^ lastExponent (p + 1) x * 10 = (10 ^ places)⁻¹ := by
        rw [← zpow_natCast, ← zpow_neg, ← h, zpow_add₀ (by norm_num), zpow_one]
      rw [div_div, e10, div_inv_eq_mul]
    -- within half a unit below the power of ten, and so closer on the coarser grid
    have hcoarse : IsNearestUp (inOnes x.units * 10 ^ places) (10 ^ p) := by
      have hlt := (inOnes_bounds hx p).2
      have hge := hc.1
      rw [hcarry] at hge
      rw [hgrid, IsNearestUp]
      push_cast at hge ⊢
      rw [pow_succ] at hlt hge
      constructor
      · rw [le_div_iff₀ (by norm_num)]
        linarith
      · rw [div_lt_iff₀ (by norm_num)]
        linarith
    rw [h, hcoarse.unique hnearest]

end ContestGrading.Decimal
