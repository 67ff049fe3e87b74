import ContestGrading.Binary64.Rounding
import Mathlib.Algebra.Group.Nat.Defs
/-!
# Rounding is monotone and exact

`rounded num den` is the magnitude that `ofRatio` gives to the quotient
`num / den`, in units, with the overflow limit for an overflow. Everything
the arithmetic needs of rounding is here: it keeps the order of the
quotients, and it changes no magnitude that the format holds.

Results:
* `rounded_mono`: a larger quotient never rounds to less.
* `rounded_mul_self`: a magnitude of the format is its own rounding.
* `ofRatio_eq`: the double that is built from a quotient has the sign given
  and the rounded magnitude.
-/
namespace ContestGrading

/-! ## The nearest integer -/

theorem nearestEven_cases (num den : Nat) :
    (nearestEven num den = num / den ∧
        (2 * (num % den) < den ∨ 2 * (num % den) = den ∧ num / den % 2 = 0)) ∨
      (nearestEven num den = num / den + 1 ∧
        (den < 2 * (num % den) ∨ 2 * (num % den) = den ∧ num / den % 2 = 1)) := by
  unfold nearestEven
  dsimp only
  split
  next h => exact .inl ⟨rfl, h⟩
  next h => exact .inr ⟨rfl, by omega⟩

theorem nearestEven_le {num den n : Nat} (hd : 0 < den) (h : num ≤ n * den) :
    nearestEven num den ≤ n := by
  have hq : num / den ≤ n := Nat.div_le_of_le_mul (by rwa [Nat.mul_comm])
  rcases nearestEven_cases num den with ⟨he, -⟩ | ⟨he, hr⟩
  · omega
  · rcases Nat.lt_or_eq_of_le hq with hlt | heq
    · omega
    · -- a quotient that reaches the bound leaves no remainder to round up
      have hdm := Nat.div_add_mod num den
      rw [heq, Nat.mul_comm] at hdm
      omega

theorem le_nearestEven {num den n : Nat} (hd : 0 < den) (h : n * den ≤ num) :
    n ≤ nearestEven num den := by
  have hq : n ≤ num / den := (Nat.le_div_iff_mul_le hd).mpr h
  rcases nearestEven_cases num den with ⟨he, -⟩ | ⟨he, -⟩ <;> omega

/-- Cross-multiplied comparison of two quotients with the same integer part. -/
theorem mod_mul_le_of_div_eq {num den num' den' : Nat} (h : num * den' ≤ num' * den)
    (hq : num / den = num' / den') : num % den * den' ≤ num' % den' * den := by
  have e := Nat.div_add_mod num den
  have e' := Nat.div_add_mod num' den'
  rw [← e, ← e', ← hq, Nat.add_mul, Nat.add_mul] at h
  have hc : den * (num / den) * den' = den' * (num / den) * den := by ac_rfl
  omega

theorem div_le_div_of_mul_le {num den num' den' : Nat} (hd : 0 < den) (hd' : 0 < den')
    (h : num * den' ≤ num' * den) : num / den ≤ num' / den' := by
  rw [Nat.le_div_iff_mul_le hd']
  have h1 := Nat.mul_le_mul_right den' (Nat.div_mul_le_self num den)
  have h2 : num / den * den' * den ≤ num' * den := by
    rw [Nat.mul_right_comm]
    exact Nat.le_trans h1 h
  exact Nat.le_of_mul_le_mul_right h2 hd

theorem nearestEven_mono {num den num' den' : Nat} (hd : 0 < den) (hd' : 0 < den')
    (h : num * den' ≤ num' * den) : nearestEven num den ≤ nearestEven num' den' := by
  have hq := div_le_div_of_mul_le hd hd' h
  rcases Nat.lt_or_eq_of_le hq with hlt | heq
  · rcases nearestEven_cases num den with ⟨he, -⟩ | ⟨he, -⟩ <;>
      rcases nearestEven_cases num' den' with ⟨he', -⟩ | ⟨he', -⟩ <;> omega
  · -- only the first could go up where the second goes down
    rcases nearestEven_cases num den with ⟨he, -⟩ | ⟨he, hr⟩
    · rcases nearestEven_cases num' den' with ⟨he', -⟩ | ⟨he', -⟩ <;> omega
    · rcases nearestEven_cases num' den' with ⟨he', hr'⟩ | ⟨he', -⟩
      · exfalso
        have hm := mod_mul_le_of_div_eq h heq
        have h1 : 2 * (num' % den') ≤ den' := by omega
        have h2 : den ≤ 2 * (num % den) := by omega
        have hlow : 2 * (num' % den') * den ≤ den' * den := Nat.mul_le_mul_right den h1
        have hhigh : den * den' ≤ 2 * (num % den) * den' := Nat.mul_le_mul_right den' h2
        have hmid : 2 * (num % den) * den' ≤ 2 * (num' % den') * den := by
          rw [Nat.mul_assoc, Nat.mul_assoc]; omega
        rw [Nat.mul_comm den den'] at hhigh
        -- all three agree, so both quotients are the same half
        have e1 : 2 * (num % den) * den' = den * den' := by rw [Nat.mul_comm den]; omega
        have e2 : 2 * (num' % den') * den = den' * den := by omega
        have e1 := Nat.eq_of_mul_eq_mul_right hd' e1
        have e2 := Nat.eq_of_mul_eq_mul_right hd e2
        omega
      · omega

namespace Binary64

/-! ## Magnitudes of the format -/

theorem powerOfTwo_eq (k : Nat) : powerOfTwo k = 2 ^ k := rfl

theorem spacing_eq (units : Nat) : spacing units = 2 ^ (units.log2 - 52) := powerOfTwo_eq _

/-- A binade with a spacing of its own has `2 ^ 52` of them. -/
theorem two_pow_mul_spacing {units : Nat} (h : 52 ≤ units.log2) :
    2 ^ 52 * spacing units = 2 ^ units.log2 := by
  rw [spacing_eq, ← Nat.pow_add]
  congr 1
  omega

theorem overflowLimit_pos : 0 < overflowLimit :=
  Nat.lt_of_le_of_lt (Nat.zero_le _) representable_zero.1

theorem unitsPerOne_pos : 0 < unitsPerOne := by decide +kernel

theorem spacing_dvd_overflowLimit : spacing overflowLimit ∣ overflowLimit := by decide +kernel

/-- Up to 53 significant bits at any place below the overflow limit. -/
theorem representable_mul_pow {m k : Nat} (hm : m ≤ 2 ^ 53) (h : m * 2 ^ k < overflowLimit) :
    Representable (m * 2 ^ k) := by
  refine ⟨h, ?_⟩
  by_cases h0 : m = 0
  · simp [h0]
  by_cases h53 : m = 2 ^ 53
  · rw [h53, ← Nat.pow_add, Nat.log2_two_pow]
    exact Nat.pow_dvd_pow 2 (by omega)
  · have hpos : m * 2 ^ k ≠ 0 := Nat.mul_ne_zero h0 (Nat.ne_of_gt (Nat.two_pow_pos k))
    have hlt : m * 2 ^ k < 2 ^ (53 + k) := by
      rw [Nat.pow_add]
      exact Nat.mul_lt_mul_of_pos_right (by omega) (Nat.two_pow_pos k)
    have hlog : (m * 2 ^ k).log2 < 53 + k := (Nat.log2_lt hpos).mpr hlt
    exact Nat.dvd_trans (Nat.pow_dvd_pow 2 (by omega)) (Nat.dvd_mul_left _ _)

theorem unitsPerOne_eq_pow : unitsPerOne = 2 ^ unitsPerOne.log2 := by decide +kernel

/-- Natural numbers up to `2 ^ 53` are magnitudes of the format. -/
theorem representable_mul_unitsPerOne {n : Nat} (h : n ≤ 2 ^ 53) :
    Representable (n * unitsPerOne) := by
  have hlt : 2 ^ 53 * unitsPerOne < overflowLimit := by decide +kernel
  have hle := Nat.mul_le_mul_right unitsPerOne h
  rw [unitsPerOne_eq_pow] at hlt hle ⊢
  exact representable_mul_pow h (Nat.lt_of_le_of_lt hle hlt)

/-! ## The rounded magnitude -/

/-- The quotient on the grid around it, whether or not that overflows. -/
def onGrid (num den : Nat) : Nat :=
  nearestEven num (den * spacing (num / den)) * spacing (num / den)

/-- The magnitude nearest to `num / den`, in units; an overflow stands at
the overflow limit. -/
def rounded (num den : Nat) : Nat := Min.min (onGrid num den) overflowLimit

theorem rounded_le_overflowLimit (num den : Nat) : rounded num den ≤ overflowLimit :=
  Nat.min_le_right _ _

/-- A quotient has at most 53 bits on the grid around it. -/
theorem nearestEven_spacing_le {num den : Nat} (hd : 0 < den) :
    nearestEven num (den * spacing (num / den)) ≤ 2 ^ 53 := by
  have hstep : 0 < den * spacing (num / den) := Nat.mul_pos hd (spacing_pos _)
  refine nearestEven_le hstep ?_
  have hq : num / den < 2 ^ 53 * spacing (num / den) := by
    have hlt := Nat.lt_log2_self (n := num / den)
    have hle : 2 ^ ((num / den).log2 + 1) ≤ 2 ^ (53 + ((num / den).log2 - 52)) :=
      Nat.pow_le_pow_right (by decide) (by omega)
    rw [Nat.pow_add 2 53] at hle
    exact Nat.lt_of_lt_of_le hlt hle
  have hnum := (Nat.div_lt_iff_lt_mul hd).mp hq
  rw [Nat.mul_left_comm, Nat.mul_comm den]
  exact Nat.le_of_lt hnum

theorem onGrid_representable {num den : Nat} (hd : 0 < den) (h : onGrid num den < overflowLimit) :
    Representable (onGrid num den) :=
  representable_mul_pow (nearestEven_spacing_le hd) h

/-- A double built from a quotient has the rounded magnitude. -/
theorem ofRatio_eq (s : Bool) (num den : Nat) :
    ofRatio s num den = ofUnits s (rounded num den) := by
  show ofUnits s (onGrid num den) = _
  rcases Nat.lt_or_ge (onGrid num den) overflowLimit with h | h
  · rw [rounded, Nat.min_eq_left (Nat.le_of_lt h)]
  · have h1 : ¬ Representable (onGrid num den) := fun hr => Nat.not_lt.mpr h hr.1
    have h2 : ¬ Representable overflowLimit := fun hr => Nat.lt_irrefl _ hr.1
    rw [rounded, Nat.min_eq_right h, ofUnits, ofUnits, dif_neg h1, dif_neg h2]

/-- The rounded magnitude is one of the format unless it overflows. -/
theorem rounded_cases {num den : Nat} (hd : 0 < den) :
    Representable (rounded num den) ∨ rounded num den = overflowLimit := by
  rcases Nat.lt_or_ge (onGrid num den) overflowLimit with h | h
  · left
    rw [rounded, Nat.min_eq_left (Nat.le_of_lt h)]
    exact onGrid_representable hd h
  · exact .inr (Nat.min_eq_right h)

/-! ## Order -/

/-- A quotient below a power of two does not round past it. -/
theorem onGrid_le_two_pow {num den k : Nat} (hd : 0 < den) (h : num / den < 2 ^ k) :
    onGrid num den ≤ 2 ^ k := by
  by_cases hk : (num / den).log2 - 52 ≤ k
  · have hstep : 0 < den * spacing (num / den) := Nat.mul_pos hd (spacing_pos _)
    have e : 2 ^ (k - ((num / den).log2 - 52)) * spacing (num / den) = 2 ^ k := by
      rw [spacing_eq, ← Nat.pow_add, Nat.sub_add_cancel hk]
    have hnum : num ≤ 2 ^ (k - ((num / den).log2 - 52)) * (den * spacing (num / den)) := by
      rw [Nat.mul_left_comm, e, Nat.mul_comm]
      exact Nat.le_of_lt ((Nat.div_lt_iff_lt_mul hd).mp h)
    have := Nat.mul_le_mul_right (spacing (num / den)) (nearestEven_le hstep hnum)
    rwa [e] at this
  · exfalso
    have h0 : num / den ≠ 0 := by
      intro h0
      rw [h0] at hk
      exact hk (by simp)
    have := (Nat.log2_lt h0).mpr h
    omega

/-- A quotient from a power of two on does not round below it, if the grid
is one of `2 ^ 52` or more steps. -/
theorem two_pow_le_onGrid {num den : Nat} (hd : 0 < den) (h : 52 ≤ (num / den).log2) :
    2 ^ (num / den).log2 ≤ onGrid num den := by
  have hstep : 0 < den * spacing (num / den) := Nat.mul_pos hd (spacing_pos _)
  have h0 : num / den ≠ 0 := by
    intro h0
    rw [h0] at h
    exact absurd h (by decide)
  have e : 2 ^ 52 * spacing (num / den) = 2 ^ (num / den).log2 := two_pow_mul_spacing h
  have hnum : 2 ^ 52 * (den * spacing (num / den)) ≤ num := by
    rw [Nat.mul_left_comm, e]
    have hq := Nat.log2_self_le h0
    have hmul := (Nat.le_div_iff_mul_le hd).mp hq
    rwa [Nat.mul_comm] at hmul
  have := Nat.mul_le_mul_right (spacing (num / den)) (le_nearestEven hstep hnum)
  rwa [e] at this

theorem onGrid_mono {num den num' den' : Nat} (hd : 0 < den) (hd' : 0 < den')
    (h : num * den' ≤ num' * den) : onGrid num den ≤ onGrid num' den' := by
  have hq := div_le_div_of_mul_le hd hd' h
  have hlog : (num / den).log2 - 52 ≤ (num' / den').log2 - 52 := by
    by_cases h0 : num / den = 0
    · simp [h0]
    · have hle := Nat.le_trans (Nat.log2_self_le h0) hq
      have h0' : num' / den' ≠ 0 := Nat.ne_of_gt (Nat.lt_of_lt_of_le (Nat.two_pow_pos _) hle)
      have := (Nat.le_log2 h0').mpr hle
      omega
  rcases Nat.lt_or_eq_of_le hlog with hlt | heq
  · -- a power of two lies between the two quotients
    have hlow : num / den < 2 ^ (num' / den').log2 := by
      by_cases h0 : num / den = 0
      · rw [h0]; exact Nat.two_pow_pos _
      · exact (Nat.log2_lt h0).mp (by omega)
    exact Nat.le_trans (onGrid_le_two_pow hd hlow) (two_pow_le_onGrid hd' (by omega))
  · have e : spacing (num / den) = spacing (num' / den') := by rw [spacing, spacing, heq]
    have hs := spacing_pos (num' / den')
    rw [onGrid, onGrid, e]
    refine Nat.mul_le_mul_right _ (nearestEven_mono (Nat.mul_pos hd hs) (Nat.mul_pos hd' hs) ?_)
    rw [← Nat.mul_assoc, ← Nat.mul_assoc]
    exact Nat.mul_le_mul_right _ h

/-- **Monotonicity.** A larger quotient never rounds to less. -/
theorem rounded_mono {num den num' den' : Nat} (hd : 0 < den) (hd' : 0 < den')
    (h : num * den' ≤ num' * den) : rounded num den ≤ rounded num' den' := by
  have := onGrid_mono hd hd' h
  unfold rounded
  omega

/-! ## Exactness -/

/-- **Exactness.** A magnitude of the format, or the overflow limit, is its
own rounding, however it is written as a quotient. -/
theorem rounded_mul_self {units den : Nat} (hd : 0 < den)
    (h : Representable units ∨ units = overflowLimit) : rounded (units * den) den = units := by
  have hstep : 0 < den * spacing units := Nat.mul_pos hd (spacing_pos _)
  have hdvd : spacing units ∣ units := by
    rcases h with h | h
    · exact h.2
    · rw [h]; exact spacing_dvd_overflowLimit
  have hon : onGrid (units * den) den = units := by
    rw [onGrid, Nat.mul_div_cancel _ hd, Nat.mul_comm units den]
    rw [nearestEven_eq_of_dvd hstep (Nat.mul_dvd_mul_left den hdvd),
      Nat.mul_div_mul_left _ _ hd, Nat.div_mul_cancel hdvd]
  rw [rounded, hon]
  rcases h with h | h
  · exact Nat.min_eq_left (Nat.le_of_lt h.1)
  · rw [h, Nat.min_self]

theorem rounded_one {units : Nat} (h : Representable units ∨ units = overflowLimit) :
    rounded units 1 = units := by
  have := rounded_mul_self Nat.one_pos h
  rwa [Nat.mul_one] at this

/-- Rounding stays below a magnitude of the format that bounds the quotient. -/
theorem rounded_le {num den units : Nat} (hd : 0 < den)
    (h : Representable units ∨ units = overflowLimit) (hle : num ≤ units * den) :
    rounded num den ≤ units := by
  have := rounded_mono hd hd (Nat.mul_le_mul_right den hle)
  rwa [rounded_mul_self hd h] at this

/-- Rounding stays above a magnitude of the format that the quotient reaches. -/
theorem le_rounded {num den units : Nat} (hd : 0 < den)
    (h : Representable units ∨ units = overflowLimit) (hle : units * den ≤ num) :
    units ≤ rounded num den := by
  have := rounded_mono hd hd (Nat.mul_le_mul_right den hle)
  rwa [rounded_mul_self hd h] at this

end Binary64

end ContestGrading
