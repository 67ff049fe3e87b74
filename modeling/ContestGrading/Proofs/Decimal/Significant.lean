import ContestGrading.Proofs.Decimal.Precision
import ContestGrading.Proofs.Decimal.Rounding
/-!
# What significant digits hold

The rounding to significant digits is nearest among all numbers of that many
digits, wherever their last digit stands. A decimal that a double is nearest
to comes back from the rounding, if it has no digits beyond those kept.

Results:
* `isNearestSignificant_toSignificant`: no number of so many digits is nearer.
* `isRoundedUp_size`: of two nearest magnitudes it is the greater one.
* `size_toSignificant_of_close`: up to 15 digits survive the double.
-/
namespace ContestGrading.Decimal

/-- A number with at most `p` significant digits. -/
def HasDigits (p : Nat) (r : ℚ) : Prop := ∃ m e : ℤ, |m| < 10 ^ p ∧ r = m * 10 ^ e

/-- `r` has at most `p` significant digits, and no such number is nearer to `q`. -/
def IsNearestSignificant (p : Nat) (q r : ℚ) : Prop :=
  HasDigits p r ∧ ∀ s, HasDigits p s → |q - r| ≤ |q - s|

theorem HasDigits.neg {p : Nat} {r : ℚ} (h : HasDigits p r) : HasDigits p (-r) := by
  obtain ⟨m, e, hm, rfl⟩ := h
  exact ⟨-m, e, by rwa [abs_neg], by push_cast; ring⟩

theorem hasDigits_zero (p : Nat) : HasDigits p 0 := ⟨0, 0, by simp, by simp⟩

theorem IsNearestSignificant.neg {p : Nat} {q r : ℚ} (h : IsNearestSignificant p q r) :
    IsNearestSignificant p (-q) (-r) := by
  refine ⟨h.1.neg, fun s hs => ?_⟩
  have e (r : ℚ) : |-q - r| = |q - -r| := by
    rw [← abs_neg]
    congr 1
    ring
  rw [e, e, neg_neg]
  exact h.2 (-s) hs.neg

variable {x : Binary64} {p : Nat}

/-- On its grid, the nearest integer is nearer than any other. -/
theorem IsNearestUp.distance_le {q : ℚ} {n : Nat} (h : IsNearestUp q n) (m : ℤ) :
    |q - n| ≤ |q - m| := by
  refine distance_le_of_le_half (n := n) ?_ m
  rw [Int.cast_natCast, abs_le]
  constructor <;> linarith [h.1, h.2]

/-- Beside the grid of a last digit there are only numbers below the first one
on it with as many digits. -/
theorem HasDigits.le_or_multiple {s : ℚ} (hs : HasDigits (p + 1) s) (last : ℤ) :
    s ≤ 10 ^ p * 10 ^ last ∨ ∃ m : ℤ, s = m * 10 ^ last := by
  obtain ⟨m, e, hm, rfl⟩ := hs
  rcases lt_or_ge e last with he | he
  · have hm : |(m : ℚ)| ≤ 10 ^ (p + 1) := by exact_mod_cast hm.le
    refine .inl ?_
    calc (m : ℚ) * 10 ^ e ≤ 10 ^ (p + 1) * 10 ^ e := by
          gcongr
          exact (le_abs_self _).trans hm
      _ = 10 ^ p * 10 ^ (e + 1) := by
          rw [pow_succ, zpow_add₀ (by norm_num), zpow_one]
          ring
      _ ≤ 10 ^ p * 10 ^ last := by
          gcongr
          · norm_num
          · omega
  · obtain ⟨k, hk⟩ := Int.le.dest he
    refine .inr ⟨m * 10 ^ k, ?_⟩
    rw [← hk, zpow_add₀ (by norm_num), zpow_natCast]
    push_cast
    ring

/-- A distance in units of the last digit. -/
theorem distance_on_grid (q r : ℚ) (last : ℤ) :
    |q - r * 10 ^ last| = |q / 10 ^ last - r| * 10 ^ last := by
  have hpos : (0 : ℚ) < 10 ^ last := by positivity
  rw [← abs_of_pos hpos, ← abs_mul, abs_of_pos hpos, sub_mul, div_mul_cancel₀ _ hpos.ne']

/-- The rounding to significant digits, without the sign. -/
theorem isNearestSignificant_size (hx : 0 < x.units) (p : Nat) :
    IsNearestSignificant (p + 1) (inOnes x.units) (x.toSignificant (p + 1)).size := by
  refine ⟨⟨(x.toSignificant (p + 1)).coefficient, _, ?_, rfl⟩, fun s hs => ?_⟩
  · rw [Nat.abs_cast]
    exact_mod_cast (toSignificant_bounds hx p).2
  obtain ⟨c, hc, -, -, hsize⟩ := size_toSignificant hx p
  obtain ⟨hlow, -⟩ := inOnes_bounds hx p
  rw [hsize]
  generalize lastExponent (p + 1) x = last at hc hlow
  have hpos : (0 : ℚ) < 10 ^ last := by positivity
  -- among the multiples of the last digit
  have hgrid (m : ℤ) : |inOnes x.units - c * 10 ^ last| ≤ |inOnes x.units - m * 10 ^ last| := by
    rw [distance_on_grid, distance_on_grid]
    exact mul_le_mul_of_nonneg_right (hc.distance_le m) hpos.le
  rcases hs.le_or_multiple last with hbelow | ⟨m, rfl⟩
  · have hge : 10 ^ p * 10 ^ last ≤ inOnes x.units := (le_div_iff₀ hpos).mp hlow
    calc |inOnes x.units - c * 10 ^ last|
        ≤ |inOnes x.units - (10 ^ p : ℤ) * 10 ^ last| := by exact_mod_cast hgrid (10 ^ p)
      _ = inOnes x.units - 10 ^ p * 10 ^ last := by
          push_cast
          rw [abs_of_nonneg (by linarith)]
      _ ≤ inOnes x.units - s := by linarith
      _ ≤ |inOnes x.units - s| := le_abs_self _
  · exact hgrid m

/-- **Nearest.** The rounding to significant digits is at least as near as
any other number of that many digits. -/
theorem isNearestSignificant_toSignificant (hx : x.isFinite = true) (p : Nat) :
    IsNearestSignificant (p + 1) x.value (x.toSignificant (p + 1)).value := by
  rw [value_eq_inOnes hx]
  rcases Nat.eq_zero_or_pos x.units with h0 | hpos
  · rw [value_of_size_zero (size_toSignificant_of_units_eq_zero hx h0 (p + 1)), h0]
    refine ⟨hasDigits_zero _, fun s _ => ?_⟩
    simp [inOnes]
  · have hsize := isNearestSignificant_size hpos p
    rw [value, toSignificant_negative hpos]
    cases x.negative with
    | true => exact hsize.neg
    | false => exact hsize

/-! ## Upward on a tie -/

/-- `r` is the number of at most `p` significant digits that is nearest to `q`,
the greater one of two. -/
structure IsRoundedUp (p : Nat) (q r : ℚ) : Prop where
  nearest : IsNearestSignificant p q r
  up : ∀ s, HasDigits p s → |q - s| = |q - r| → s ≤ r

namespace IsRoundedUp

variable {q r s : ℚ}

theorem unique (hr : IsRoundedUp p q r) (hs : IsRoundedUp p q s) : r = s := by
  have hdistance : |q - r| = |q - s| :=
    le_antisymm (hr.nearest.2 s hs.nearest.1) (hs.nearest.2 r hr.nearest.1)
  exact le_antisymm (hs.up r hr.nearest.1 hdistance) (hr.up s hs.nearest.1 hdistance.symm)

/-- What is rounded to `r` is not below the middle of `r` and a lesser number
of so many digits. -/
theorem middle_le (hr : IsRoundedUp p q r) (hs : HasDigits p s) (h : s < r) :
    (s + r) / 2 ≤ q := by
  by_contra hlt
  have hle := hr.nearest.2 s hs
  have hfar := neg_le_abs (q - r)
  rcases abs_cases (q - s) with ⟨e, -⟩ | ⟨e, -⟩ <;> linarith

/-- Rounding keeps the order. -/
theorem mono {q' : ℚ} (hr : IsRoundedUp p q r) (hs : IsRoundedUp p q' s) (h : q ≤ q') :
    r ≤ s := by
  by_contra hlt
  have hlow := hr.middle_le hs.nearest.1 (not_le.mp hlt)
  have hnearest := hs.nearest.2 r hr.nearest.1
  rw [abs_of_nonneg (by linarith : 0 ≤ q' - s)] at hnearest
  have hmiddle : q' ≤ (s + r) / 2 := by
    rcases abs_cases (q' - r) with ⟨e, -⟩ | ⟨e, -⟩ <;> linarith
  -- then both are in the middle, and the greater one would have been taken
  refine hlt (hs.up r hr.nearest.1 ?_)
  rw [abs_of_nonneg (by linarith : 0 ≤ q' - s), abs_of_nonpos (by linarith : q' - r ≤ 0)]
  linarith

/-- Rounding does not pass a number of so many digits downward. -/
theorem le_of_le (hr : IsRoundedUp p q r) (hs : HasDigits p s) (h : s ≤ q) : s ≤ r := by
  by_contra hlt
  have hle := hr.nearest.2 s hs
  rw [abs_of_nonneg (by linarith : 0 ≤ q - s)] at hle
  have hfar := le_abs_self (q - r)
  linarith

end IsRoundedUp

/-- A half goes up in the rounding to significant digits. -/
theorem isRoundedUp_size (hx : 0 < x.units) (p : Nat) :
    IsRoundedUp (p + 1) (inOnes x.units) (x.toSignificant (p + 1)).size := by
  refine ⟨isNearestSignificant_size hx p, fun s hs heq => ?_⟩
  obtain ⟨c, hc, hlow, -, hsize⟩ := size_toSignificant hx p
  rw [hsize] at heq ⊢
  generalize lastExponent (p + 1) x = last at hc heq
  have hpos : (0 : ℚ) < 10 ^ last := by positivity
  rcases hs.le_or_multiple last with hbelow | ⟨m, rfl⟩
  · refine hbelow.trans ?_
    gcongr
    exact_mod_cast hlow
  · rw [distance_on_grid, distance_on_grid] at heq
    have heq := mul_right_cancel₀ hpos.ne' heq
    have hm : m ≤ c := by
      by_contra hlt
      have hnext : (c + 1 : ℚ) ≤ m := by exact_mod_cast not_le.mp hlt
      obtain ⟨hge, hlt⟩ := hc
      rw [abs_of_nonpos (by linarith)] at heq
      rcases abs_cases (inOnes x.units / 10 ^ last - c) with ⟨e, -⟩ | ⟨e, -⟩ <;> linarith
    gcongr
    exact_mod_cast hm

/-- Below a power of ten there is a gap to the next number of so many digits. -/
theorem HasDigits.le_pred {s : ℚ} (hs : HasDigits (p + 1) s) (h : s < 10 ^ (p + 1)) :
    s ≤ 10 ^ (p + 1) - 1 := by
  rcases hs.le_or_multiple 0 with hbelow | ⟨m, rfl⟩
  · rw [zpow_zero, mul_one] at hbelow
    have hone : (1 : ℚ) ≤ 10 ^ p := one_le_pow₀ (by norm_num)
    rw [pow_succ]
    linarith
  · rw [zpow_zero, mul_one] at h ⊢
    have hm : m < 10 ^ (p + 1) := by exact_mod_cast h
    have hm : m ≤ 10 ^ (p + 1) - 1 := by omega
    exact_mod_cast hm

/-! ## Digits that survive the double -/

/-- Up to 15 significant digits come back from the nearest double. -/
theorem size_toSignificant_of_close (hx : 0 < x.units) (hp : p ≤ 14) {n : Nat}
    (h : |inOnes x.units - n * 10 ^ lastExponent (p + 1) x| ≤
      n * 10 ^ lastExponent (p + 1) x / 2 ^ 53) :
    (x.toSignificant (p + 1)).size = n * 10 ^ lastExponent (p + 1) x := by
  obtain ⟨c, hc, -, -, hsize⟩ := size_toSignificant hx p
  have hhigh := (inOnes_bounds hx p).2
  rw [hsize]
  generalize lastExponent (p + 1) x = last at h hc hhigh
  have hpos : (0 : ℚ) < 10 ^ last := by positivity
  -- in units of the last digit, the double is a fraction of a unit away
  have hquot : inOnes x.units = inOnes x.units / 10 ^ last * 10 ^ last :=
    (div_mul_cancel₀ _ hpos.ne').symm
  generalize inOnes x.units / 10 ^ last = q at hquot hc hhigh
  have hclose : |q - n| ≤ n / 2 ^ 53 := by
    rw [hquot, ← sub_mul, abs_mul, abs_of_pos hpos, mul_div_right_comm] at h
    exact le_of_mul_le_mul_right h hpos
  have hpow : (10 : ℚ) ^ (p + 1) ≤ 10 ^ 15 := pow_le_pow_right₀ (by norm_num) (by omega)
  obtain ⟨hge, hle⟩ := abs_le.mp hclose
  have hn : (n : ℚ) < 2 * 10 ^ 15 := by linarith
  have hnearest : IsNearestUp q n := by
    constructor <;> linarith
  rw [hc.unique hnearest]

end ContestGrading.Decimal
