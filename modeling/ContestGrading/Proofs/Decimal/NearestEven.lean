import ContestGrading.Proofs.Decimal.Value
/-!
# The nearest integer, the even one of two

Rounding to an integer with a half to the even one: there is one such integer,
it is also the nearest multiple on a grid of any step, and rounding a half up
differs from it only at a half above an even integer.

Results:
* `IsNearestEven.unique`: a number has one such integer.
* `IsNearestEven.on_grid`: the nearest multiple of a step.
* `isNearestEven_nearestEven`: the rounding of a quotient.
* `IsNearestUp.even_or_half`: where rounding a half up differs.
-/
namespace ContestGrading.Decimal

/-- `n` is the integer nearest to `q`, the even one of two. -/
def IsNearestEven (q : ℚ) (n : ℤ) : Prop := |q - n| ≤ 1 / 2 ∧ (|q - n| = 1 / 2 → Even n)

theorem IsNearestEven.neg {q : ℚ} {n : ℤ} (h : IsNearestEven q n) : IsNearestEven (-q) (-n) := by
  have e : |-q - ((-n : ℤ) : ℚ)| = |q - n| := by
    rw [← abs_neg]
    push_cast
    congr 1
    ring
  rw [IsNearestEven, e]
  exact ⟨h.1, fun heq => (h.2 heq).neg⟩

theorem IsNearestEven.unique {q : ℚ} {m n : ℤ} (hm : IsNearestEven q m) (hn : IsNearestEven q n) :
    m = n := by
  by_contra hne
  -- two integers at most half a unit away are neighbours, and not both even
  have hone : (1 : ℚ) ≤ |(m : ℚ) - n| := by
    exact_mod_cast Int.one_le_abs (sub_ne_zero.mpr hne)
  have htriangle := abs_sub_le (m : ℚ) q n
  rw [abs_sub_comm (m : ℚ) q] at htriangle
  have hm1 := hm.1
  have hn1 := hn.1
  have hdistance : |(m : ℚ) - n| = 1 := by linarith
  have hdistance : |m - n| = 1 := by exact_mod_cast hdistance
  obtain ⟨i, hi⟩ := hm.2 (by linarith)
  obtain ⟨j, hj⟩ := hn.2 (by linarith)
  rcases abs_choice (m - n) with e | e <;> omega

theorem isNearestEven_of_half {m : Nat} (heven : Even m) : IsNearestEven ((m : ℚ) + 1 / 2) m := by
  rw [IsNearestEven, Int.cast_natCast, add_sub_cancel_left, abs_of_pos (by norm_num)]
  exact ⟨le_refl _, fun _ => by exact_mod_cast heven⟩

theorem IsNearestEven.exists_nat {a : ℚ} (ha : 0 ≤ a) {k : ℤ} (h : IsNearestEven a k) :
    ∃ c : Nat, k = c := by
  have hlt : (-1 : ℚ) < k := by linarith [(abs_le.mp h.1).2]
  have hlt : -1 < k := by exact_mod_cast hlt
  exact Int.eq_ofNat_of_zero_le (by omega)

/-! ## Around a half -/

theorem isNearestEven_of_above {q : ℚ} {m : Nat} (hlow : (m : ℚ) + 1 / 2 < q) (hhigh : q ≤ m + 1) :
    IsNearestEven q (m + 1 : Nat) := by
  have hdistance : |q - ((m + 1 : Nat) : ℤ)| < 1 / 2 := by
    push_cast
    rw [abs_lt]
    constructor <;> linarith
  exact ⟨hdistance.le, fun h => absurd h hdistance.ne⟩

/-- Rounding a half up is wrong only for a half above an even integer. -/
theorem IsNearestUp.even_or_half {q : ℚ} {c : Nat} (h : IsNearestUp q c) (hq : 0 ≤ q) :
    IsNearestEven q c ∨ ∃ m : Nat, Even m ∧ c = m + 1 ∧ q = m + 1 / 2 := by
  obtain ⟨hge, hlt⟩ := h
  have hhalf : |q - (c : ℤ)| ≤ 1 / 2 := by
    rw [Int.cast_natCast, abs_le]
    constructor <;> linarith
  by_cases htie : q = c - 1 / 2
  · have hc : 0 < c := by
      have : (0 : ℚ) < c := by linarith
      exact_mod_cast this
    obtain ⟨m, rfl⟩ : ∃ m, c = m + 1 := ⟨c - 1, by omega⟩
    rcases Nat.even_or_odd m with heven | hodd
    · refine .inr ⟨m, heven, rfl, ?_⟩
      rw [htie]
      push_cast
      ring
    · exact .inl ⟨hhalf, fun _ => by exact_mod_cast hodd.add_one⟩
  · refine .inl ⟨hhalf, fun heq => absurd ?_ htie⟩
    rw [Int.cast_natCast] at heq
    rcases (abs_eq (by norm_num)).mp heq with e | e <;> linarith

/-! ## On a grid -/

/-- Two integers that are as near are half a unit away. -/
theorem eq_half_of_distance_eq {q : ℚ} {n m : ℤ} (h : |q - n| ≤ 1 / 2) (hne : m ≠ n)
    (heq : |q - m| = |q - n|) : |q - n| = 1 / 2 := by
  have hone : (1 : ℚ) ≤ |(m : ℚ) - n| := by
    exact_mod_cast Int.one_le_abs (sub_ne_zero.mpr hne)
  have := abs_sub_le (m : ℚ) q n
  rw [abs_sub_comm (m : ℚ) q] at this
  linarith

/-- The same on a grid of any step. -/
theorem IsNearestEven.on_grid {q s : ℚ} (hs : 0 < s) {n : ℤ} (h : IsNearestEven (q / s) n) :
    (∀ m : ℤ, |q - n * s| ≤ |q - m * s|) ∧
      ∀ m : ℤ, m ≠ n → |q - m * s| = |q - n * s| → Even n := by
  have hdistance (m : ℤ) : |q - m * s| = |q / s - m| * s := by
    conv_rhs => rw [← abs_of_pos hs, ← abs_mul, abs_of_pos hs, sub_mul, div_mul_cancel₀ _ hs.ne']
  refine ⟨fun m => ?_, fun m hne heq => ?_⟩
  · rw [hdistance, hdistance]
    exact mul_le_mul_of_nonneg_right (distance_le_of_le_half h.1 m) hs.le
  · rw [hdistance, hdistance] at heq
    exact h.2 (eq_half_of_distance_eq h.1 hne (mul_right_cancel₀ hs.ne' heq))

/-! ## Quotients -/

/-- How far the remainder is from half the denominator. -/
theorem remainder_cases (num : Nat) {den : Nat} (hd : 0 < den) :
    (2 * (num % den) < den → (num / den : ℚ) < (num / den : Nat) + 1 / 2) ∧
      (2 * (num % den) = den → (num / den : ℚ) = (num / den : Nat) + 1 / 2) ∧
      (den < 2 * (num % den) → (num / den : Nat) + 1 / 2 < (num / den : ℚ)) := by
  have hd' : (0 : ℚ) < den := Nat.cast_pos.mpr hd
  have hdm : (num : ℚ) = den * (num / den : Nat) + (num % den : Nat) := by
    exact_mod_cast (Nat.div_add_mod num den).symm
  refine ⟨fun h => ?_, fun h => ?_, fun h => ?_⟩
  · have h : (2 : ℚ) * (num % den : Nat) < den := by exact_mod_cast h
    rw [div_lt_iff₀ hd']
    linarith
  · have h : (2 : ℚ) * (num % den : Nat) = den := by exact_mod_cast h
    rw [div_eq_iff hd'.ne']
    linarith
  · have h : (den : ℚ) < 2 * (num % den : Nat) := by exact_mod_cast h
    rw [lt_div_iff₀ hd']
    linarith

theorem isNearestEven_nearestEven (num : Nat) {den : Nat} (hd : 0 < den) :
    IsNearestEven (num / den) (nearestEven num den) := by
  have hlow : ((num / den : Nat) : ℚ) ≤ num / den := by
    rw [le_div_iff₀ (Nat.cast_pos.mpr hd)]
    exact_mod_cast Nat.div_mul_le_self num den
  have hhigh : (num / den : ℚ) < (num / den : Nat) + 1 := by
    rw [div_lt_iff₀ (Nat.cast_pos.mpr hd), add_mul, one_mul]
    exact_mod_cast Nat.lt_div_mul_add hd
  obtain ⟨hbelow, htie, habove⟩ := remainder_cases num hd
  rw [IsNearestEven, Int.cast_natCast]
  rcases nearestEven_cases num den with ⟨he, hr | ⟨hr, heven⟩⟩ | ⟨he, hr | ⟨hr, hodd⟩⟩
  · have := hbelow hr
    rw [he, abs_of_nonneg (by linarith)]
    exact ⟨by linarith, fun h => by linarith⟩
  · have := htie hr
    rw [he, abs_of_nonneg (by linarith)]
    exact ⟨by linarith, fun _ => by exact_mod_cast Nat.even_iff.mpr heven⟩
  · have := habove hr
    rw [he, Nat.cast_succ, abs_of_nonpos (by linarith)]
    exact ⟨by linarith, fun h => by linarith⟩
  · have := htie hr
    rw [he, Nat.cast_succ, abs_of_nonpos (by linarith)]
    exact ⟨by linarith, fun _ => by exact_mod_cast Nat.even_iff.mpr (by omega)⟩

end ContestGrading.Decimal
