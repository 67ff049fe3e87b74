import ContestGrading.Proofs.Decimal.General
import ContestGrading.Proofs.Decimal.Significant
import ContestGrading.Proofs.Decimal.Ties
import ContestGrading.Proofs.Decimal.Whole
/-!
# When the general notation is that of `%g`

The conversion `%g` writes the nearest number of so many significant digits,
positional or with an exponent as the exponent of that number says, and drops
zeros at the end. The general notation does so too, with two exceptions. A
number from `1e21` on that is due in the positional form is written plainly,
with an exponent whose zeros are then dropped as well; and where the
positional form would need more than a hundred places, nothing is written.

Results:
* `isGeneralText_positional`, `isGeneralText_exponential`: the two layouts.
* `exponent_mem_dropped_toText`: a number from the cut-off on has an exponent.
* `eq_of_isNearestSignificant`: digits that reach to the point keep it as it is.
* `general_conforms_iff`: exactly when the text is that of `%g`.
-/
namespace ContestGrading

/-- The general notation with all its digits, before zeros are dropped. -/
def Binary64.paddedText (precision : Nat) (x : Binary64) : Text :=
  if x.generalExponent precision < -4 ∨ precision ≤ x.generalExponent precision then
    (x.toSignificant precision).scientificNotation precision 2
  else x.fixedText (precision - 1 - x.generalExponent precision).toNat

namespace Decimal

open Binary64 (unitsPerOne)

variable {x : Binary64} {p : Nat}

/-! ## The conversion -/

/-- The whole text `t` denotes the number `r`. -/
def Denotes (t : Text) (r : ℚ) : Prop := ∃ d, ofText? t = some d ∧ d.value = r

theorem Denotes.unique {t : Text} {r s : ℚ} (hr : Denotes t r) (hs : Denotes t s) : r = s := by
  obtain ⟨d, hd, rfl⟩ := hr
  obtain ⟨e, he, rfl⟩ := hs
  rw [Option.some.inj (hd.symm.trans he)]

/-- The text `t` is what `%g` may write of `q` to a number of significant
digits: it denotes the rounded number `r`, in the layout that the exponent of
`r` calls for, and without zeros at the end, which do not count in `full`. -/
structure IsGeneralText (digits : Nat) (q : ℚ) (full t : Text) (r : ℚ) (exponent : ℤ) : Prop where
  denotes : Denotes t r
  unchanged : Denotes full r
  nearest : IsNearestSignificant digits q r
  leading : 10 ^ exponent ≤ |r| ∧ |r| < 10 ^ (exponent + 1)
  positional : -4 ≤ exponent → exponent < digits → ∃ n : Plain, t = n.text ∧ n.IsLean
  exponential : exponent < -4 ∨ digits ≤ exponent →
    ∃ n : Scientific, t = n.text ∧ n.exponent = exponent ∧ n.IsLean

/-! ## The two layouts -/

theorem Plain.denotes {n : Plain} {r : ℚ} (h : n.value = r) : Denotes n.text r := by
  obtain ⟨d, hd, -⟩ := n.ofText?_text
  exact ⟨d, hd, (n.value_of_ofText? hd).trans h⟩

theorem Scientific.denotes {n : Scientific} {d : Decimal} (hsign : n.negative = d.negative)
    (hsize : n.size = d.size) : Denotes n.text d.value := by
  obtain ⟨e, he, esign, esize⟩ := n.ofText?_text
  exact ⟨e, he, by rw [value, value, esign, esize, hsign, hsize]⟩

theorem leading_toSignificant (hx : 0 < x.units) (p : Nat) :
    10 ^ x.generalExponent (p + 1) ≤ |(x.toSignificant (p + 1)).value| ∧
      |(x.toSignificant (p + 1)).value| < 10 ^ (x.generalExponent (p + 1) + 1) := by
  rw [abs_value]
  exact generalExponent_bounds hx p

/-- The positional form, below the cut-off. -/
theorem isGeneralText_positional (hx : 0 < x.units) (hfixed : x.exceedsFixed = false)
    (hlow : -4 ≤ x.generalExponent (p + 1)) (hhigh : x.generalExponent (p + 1) ≤ p) :
    IsGeneralText (p + 1) x.value (x.paddedText (p + 1)) (x.generalText (p + 1))
      (x.toSignificant (p + 1)).value (x.generalExponent (p + 1)) := by
  obtain ⟨n, hfull, htext, hsign, hsize, hlean⟩ := generalText_fixed hx hfixed hlow hhigh
  have hvalue : n.value = (x.toSignificant (p + 1)).value := by
    rw [Plain.value, value, hsign, hsize, toSignificant_negative hx]
  have hpadded : x.paddedText (p + 1) = n.text := by
    rw [Binary64.paddedText, if_neg (by omega), hfull]
  constructor
  · rw [htext]
    refine Plain.denotes ?_
    rw [← hvalue, Plain.value, n.size_strip]
    rfl
  · rw [hpadded]
    exact Plain.denotes hvalue
  · exact isNearestSignificant_toSignificant (isFinite_of_units_pos hx) p
  · exact leading_toSignificant hx p
  · exact fun _ _ => ⟨n.strip, htext, hlean⟩
  · intro h
    omega

/-- The exponential form. -/
theorem isGeneralText_exponential (hx : 0 < x.units)
    (h : x.generalExponent (p + 1) < -4 ∨ p < x.generalExponent (p + 1)) :
    IsGeneralText (p + 1) x.value (x.paddedText (p + 1)) (x.generalText (p + 1))
      (x.toSignificant (p + 1)).value (x.generalExponent (p + 1)) := by
  obtain ⟨n, hfull, htext, hsign, hexponent, hsize⟩ := generalExponential_eq hx p
  have hsign : n.negative = (x.toSignificant (p + 1)).negative := by
    rw [hsign, toSignificant_negative hx]
  have htext : x.generalText (p + 1) = n.strip.text := by
    rw [generalText_exponential hx h, htext]
  have hpadded : x.paddedText (p + 1) = n.text := by
    rw [Binary64.paddedText, if_pos (by omega), hfull]
  constructor
  · rw [htext]
    exact Scientific.denotes hsign (n.size_strip.trans hsize)
  · rw [hpadded]
    exact Scientific.denotes hsign hsize
  · exact isNearestSignificant_toSignificant (isFinite_of_units_pos hx) p
  · exact leading_toSignificant hx p
  · intro hlow hhigh
    omega
  · exact fun _ => ⟨n.strip, htext, hexponent, n.isLean_strip⟩

/-- The text is that of `%g` unless the positional form is due from the
cut-off on. -/
theorem isGeneralText_generalText (hx : 0 < x.units)
    (h : x.generalExponent (p + 1) ≤ p → x.exceedsFixed = false) :
    IsGeneralText (p + 1) x.value (x.paddedText (p + 1)) (x.generalText (p + 1))
      (x.toSignificant (p + 1)).value (x.generalExponent (p + 1)) := by
  by_cases hlayout : x.generalExponent (p + 1) < -4 ∨ p < x.generalExponent (p + 1)
  · exact isGeneralText_exponential hx hlayout
  · exact isGeneralText_positional hx (h (by omega)) (by omega) (by omega)

/-! ## From the cut-off on -/

/-- A number from the cut-off on has more than 21 digits before the point. -/
theorem decimalExponent_of_cutOff (hx : 0 < x.units) (h : 10 ^ 21 ≤ |x.value|) :
    21 ≤ x.decimalExponent := by
  rw [Binary64.abs_value] at h
  exact (le_decimalExponent_iff hx).mpr (by exact_mod_cast h)

/-- The leading digit, in units of the last of so many digits. -/
theorem pow_decimalExponent (p : Nat) (x : Binary64) :
    (10 : ℚ) ^ x.decimalExponent = 10 ^ p * 10 ^ lastExponent (p + 1) x := by
  rw [← zpow_natCast, ← zpow_add₀ (by norm_num), lastExponent]
  congr 1
  push_cast
  ring

/-- A hit of the search has the digits that were searched for. -/
theorem pow_le_size_shortestOn? (hx : 0 < x.units) {d : Decimal}
    (h : x.shortestOn? (p + 1) = some d) : (10 : ℚ) ^ x.decimalExponent ≤ d.size := by
  have hlow := (inOnes_bounds hx p).1
  rw [← overPowerOfTen_eq, le_div_iff₀ (Nat.cast_pos.mpr (overPowerOfTen_pos _ _))] at hlow
  have hquotient := (Nat.le_div_iff_mul_le (overPowerOfTen_pos _ _)).mpr (by exact_mod_cast hlow)
  obtain ⟨-, hexponent, hcases⟩ := Binary64.shortestOn?_cases h
  have hcoefficient : 10 ^ p ≤ d.coefficient := by omega
  rw [pow_decimalExponent p, size, hexponent]
  gcongr
  exact_mod_cast hcoefficient

/-- The shortest decimal has the magnitude of the number. -/
theorem pow_le_size_shortest (hx : 0 < x.units) :
    (10 : ℚ) ^ x.decimalExponent ≤ x.shortest.size := by
  rw [Binary64.shortest, size_normalize]
  cases hsearch : (List.range 17).findSome? fun i => x.shortestOn? (i + 1) with
  | some d =>
    obtain ⟨i, -, hi⟩ := List.exists_of_findSome?_eq_some hsearch
    exact pow_le_size_shortestOn? hx hi
  | none =>
    obtain ⟨c, -, hc, -, hsize⟩ := size_toSignificant hx 16
    rw [Option.getD_none, hsize, pow_decimalExponent 16]
    gcongr
    exact_mod_cast hc

/-- Its point stands behind the leading digit of the number. -/
theorem decimalExponent_lt_point (hx : 0 < x.units) :
    x.decimalExponent < x.shortest.exponent + digitCount x.shortest.coefficient := by
  have hlt : x.shortest.size <
      10 ^ (x.shortest.exponent + digitCount x.shortest.coefficient) := by
    rw [size, zpow_add₀ (by norm_num), zpow_natCast, mul_comm]
    gcongr
    exact_mod_cast lt_pow_digitCount _
  exact (zpow_lt_zpow_iff_right₀ (by norm_num : (1 : ℚ) < 10)).mp
    ((pow_le_size_shortest hx).trans_lt hlt)

theorem mem_dropWhile_zeros {u : UInt16} (hu : u ≠ 48) {t : Text} (h : u ∈ t) :
    u ∈ t.dropWhile (· == 48) := by
  induction t with
  | nil => exact h
  | cons v t ih =>
    rw [List.dropWhile_cons]
    split
    next hv =>
      rcases List.mem_cons.mp h with rfl | h
      · exact absurd (beq_iff_eq.mp hv) hu
      · exact ih h
    next => exact h

/-- Only zeros and a point are dropped. -/
theorem mem_dropTrailingZeros {u : UInt16} (hzero : u ≠ 48) (hpoint : u ≠ 46) {t : Text}
    (h : u ∈ t) : u ∈ dropTrailingZeros t := by
  have hkept := mem_dropWhile_zeros hzero (List.mem_reverse.mpr h)
  unfold dropTrailingZeros
  split
  · dsimp only
    split
    · exact h
    · split
      next heq =>
        rw [heq] at hkept
        exact List.mem_reverse.mpr ((List.mem_cons.mp hkept).resolve_left hpoint)
      next => exact List.mem_reverse.mpr hkept
  · exact h

/-- From the cut-off on the plain notation has an exponent, also without the
zeros at its end. -/
theorem exponent_mem_dropped_toText (hx : 0 < x.units) (h : 10 ^ 21 ≤ |x.value|) :
    101 ∈ dropTrailingZeros x.toText := by
  refine mem_dropTrailingZeros (by decide) (by decide) ?_
  obtain ⟨s, u, hu, rfl⟩ := Binary64.exists_of_isFinite (isFinite_of_units_pos hx)
  rw [Binary64.toText, if_neg (ne_true_of_eq_false (isZero_of_units_pos hx)), Binary64.finiteText]
  have hexponent := decimalExponent_of_cutOff hx h
  have hpoint := decimalExponent_lt_point hx
  have hlength (c : Nat) : (natText c).length = digitCount c := length_digitText _
  rw [hlength, if_neg (by omega)]
  simp [scientificNotation, exponentText]

/-- From the cut-off on numbers are whole. -/
theorem exists_int_of_cutOff (hx : x.isFinite = true) (h : 10 ^ 21 ≤ |x.value|) :
    ∃ m : ℤ, x.value = m := by
  have hunits : 10 ^ 21 * unitsPerOne ≤ x.units := by
    rw [Binary64.abs_value, inOnes, le_div_iff₀ unitsPerOne_cast_pos] at h
    exact_mod_cast h
  have hone := Binary64.unitsPerOne_pos
  obtain ⟨t, -, ⟨k, hk⟩, htone, ht⟩ := exists_pow_dvd (representable_units x)
  have hle := Nat.le_of_dvd hone htone
  obtain rfl : t = unitsPerOne := by
    rcases ht with ht | ht
    · exact ht
    · omega
  have hvalue : inOnes x.units = k := by
    rw [inOnes, hk, Nat.cast_mul, mul_div_cancel_left₀ _ unitsPerOne_cast_pos.ne']
  rw [value_eq_inOnes hx, hvalue]
  split
  · exact ⟨-k, by push_cast; rfl⟩
  · exact ⟨k, by push_cast; rfl⟩

/-- If the digits reach to the point of such a number, the nearest one is the
number itself. -/
theorem eq_of_isNearestSignificant (hx : 0 < x.units) (h : 10 ^ 21 ≤ |x.value|)
    (hp : x.decimalExponent < p) {r : ℚ} (hr : IsNearestSignificant p x.value r) :
    r = x.value := by
  obtain ⟨m, hm⟩ := exists_int_of_cutOff (isFinite_of_units_pos hx) h
  have hlt := (decimalExponent_lt_iff hx).mp hp
  rw [← Binary64.abs_value] at hlt
  have hdigits : HasDigits p x.value := by
    refine ⟨m, 0, ?_, by rw [hm, zpow_zero, mul_one]⟩
    rw [hm, zpow_natCast] at hlt
    exact_mod_cast hlt
  have hle := hr.2 x.value hdigits
  rw [sub_self, abs_zero] at hle
  linarith [abs_nonpos_iff.mp hle]

/-- What is written of such a number in place of the positional form is not
what `%g` writes. -/
theorem not_isGeneralText_of_cutOff (hx : 0 < x.units) (h : 10 ^ 21 ≤ |x.value|)
    (hp : x.decimalExponent < p) {full t : Text} (ht : 101 ∈ t) {r : ℚ} {exponent : ℤ} :
    ¬ IsGeneralText p x.value full t r exponent := by
  intro hg
  obtain rfl := eq_of_isNearestSignificant hx h hp hg.nearest
  obtain ⟨hle, hlt⟩ := hg.leading
  have hlow : (21 : ℤ) < exponent + 1 :=
    (zpow_lt_zpow_iff_right₀ (by norm_num : (1 : ℚ) < 10)).mp (lt_of_le_of_lt h hlt)
  rw [Binary64.abs_value] at hle
  have hhigh := (le_decimalExponent_iff hx).mpr hle
  obtain ⟨n, rfl, -⟩ := hg.positional (by omega) (by omega)
  exact n.not_mem_text (by decide) (by decide) (by decide) ht

/-- There the positional form is the plain notation without zeros at its end. -/
theorem generalText_of_cutOff (hx : 0 < x.units) (h : 10 ^ 21 ≤ |x.value|)
    (hp : x.generalExponent (p + 1) ≤ p) :
    x.generalText (p + 1) = dropTrailingZeros x.toText := by
  have hfinite := isFinite_of_units_pos hx
  have hexponent := decimalExponent_of_cutOff hx h
  have := generalExponent_cases hx p
  rw [generalText_eq_positional hx (by omega) hp, Binary64.generalPositional, Binary64.fixedText,
    if_pos ((exceedsFixed_iff_abs_value hfinite).mpr h)]

/-! ## An asked precision -/

/-- A whole precision from 1 to 100 is one of digits, and only places beyond
the hundredth are refused. -/
theorem generalWith?_ofNat (hx : 0 < x.units) (hp : p < 100) :
    Binary64.generalWith? (.ofNat (p + 1)) x =
      if -4 ≤ x.generalExponent (p + 1) ∧ 100 < p - x.generalExponent (p + 1) then none
      else some (x.generalText (p + 1)) := by
  have hlt : p + 1 < 2 ^ 53 := by omega
  rw [Binary64.generalWith?, Binary64.isInteger_ofNat hlt, Binary64.truncate_ofNat hlt,
    Binary64.general?, isZero_of_units_pos hx, isFinite_of_units_pos hx]
  simp only [Bool.not_true, Bool.or_self, Bool.false_eq_true, if_false, if_true, Int.toNat_natCast]
  rw [if_neg (by omega)]
  refine if_congr ?_ rfl rfl
  omega

/-- **The general notation and `%g`.** For a nonzero number and a precision of
1 to 100 digits, the text is what `%g` may write except in two cases: where
the positional form of a number from `1e21` on is due, it is the plain
notation without zeros at its end, and where that form would need more than a
hundred places, there is none. -/
theorem general_conforms_iff (hx : x.isFinite = true) (h0 : x.isZero = false)
    {precision : Nat} (hp : 1 ≤ precision) (hp' : precision ≤ 100) :
    (Binary64.generalWith? (.ofNat precision) x = none ↔
        -4 ≤ x.generalExponent precision ∧ 100 < precision - 1 - x.generalExponent precision) ∧
      (10 ^ 21 ≤ |x.value| → x.generalExponent precision < precision →
        Binary64.generalWith? (.ofNat precision) x = some (dropTrailingZeros x.toText)) ∧
      ((∃ t r exponent, Binary64.generalWith? (.ofNat precision) x = some t ∧
          IsGeneralText precision x.value (x.paddedText precision) t r exponent) ↔
        ¬ (-4 ≤ x.generalExponent precision ∧
            100 < precision - 1 - x.generalExponent precision) ∧
          ¬ (10 ^ 21 ≤ |x.value| ∧ x.generalExponent precision < precision)) := by
  obtain ⟨p, rfl⟩ : ∃ p, precision = p + 1 := ⟨precision - 1, by omega⟩
  have hpos : 0 < x.units := Nat.pos_of_ne_zero fun hu => by
    rw [isZero_of_units_eq_zero hx hu] at h0
    cases h0
  have hplaces : ((p + 1 : Nat) : ℤ) - 1 = p := by omega
  rw [generalWith?_ofNat hpos (by omega), hplaces]
  have hcarry := generalExponent_cases hpos p
  by_cases hrefused : -4 ≤ x.generalExponent (p + 1) ∧ 100 < p - x.generalExponent (p + 1)
  · rw [if_pos hrefused]
    refine ⟨iff_of_true rfl hrefused, fun h _ => ?_, ?_⟩
    · have := decimalExponent_of_cutOff hpos h
      omega
    · exact iff_of_false (fun ⟨_, _, _, h, _⟩ => nomatch h) fun h => h.1 hrefused
  rw [if_neg hrefused]
  refine ⟨iff_of_false nofun hrefused, fun h hlt => ?_, ?_⟩
  · rw [generalText_of_cutOff hpos h (by omega)]
  by_cases hcut : 10 ^ 21 ≤ |x.value| ∧ x.generalExponent (p + 1) < (p + 1 : Nat)
  · refine iff_of_false ?_ fun h => h.2 hcut
    rintro ⟨t, r, exponent, ht, hg⟩
    obtain rfl := Option.some.inj ht
    refine not_isGeneralText_of_cutOff hpos hcut.1 (by omega) ?_ hg
    rw [generalText_of_cutOff hpos hcut.1 (by omega)]
    exact exponent_mem_dropped_toText hpos hcut.1
  · have hg := isGeneralText_generalText (p := p) hpos fun hle => by
      rw [← Bool.not_eq_true, exceedsFixed_iff_abs_value hx]
      exact fun h => hcut ⟨h, by omega⟩
    exact iff_of_true ⟨_, _, _, rfl, hg⟩ ⟨hrefused, hcut⟩

/-- Rounded to four digits, this number gets to the first power of ten that
is written without an exponent. -/
def nearTenThousandth : Binary64 := toBinary64 ⟨false, 99996, -9⟩

theorem general_conforms_iff_nearTenThousandth :
    nearTenThousandth.isFinite = true ∧ nearTenThousandth.isZero = false ∧
      Binary64.generalWith? (.ofNat 4) nearTenThousandth = some ("0.0001" : Text) ∧
      ∃ r exponent, IsGeneralText 4 nearTenThousandth.value (nearTenThousandth.paddedText 4)
        ("0.0001" : Text) r exponent := by
  have hfinite : nearTenThousandth.isFinite = true := by decide +kernel
  have hzero : nearTenThousandth.isZero = false := by decide +kernel
  have htext : Binary64.generalWith? (.ofNat 4) nearTenThousandth = some ("0.0001" : Text) := by
    decide +kernel
  have hexponent : nearTenThousandth.generalExponent 4 = -4 := by decide +kernel
  have hbelow : ¬ 10 ^ 21 ≤ |nearTenThousandth.value| := by
    rw [← exceedsFixed_iff_abs_value hfinite]
    decide +kernel
  obtain ⟨-, -, hiff⟩ :=
    general_conforms_iff hfinite hzero (by decide : 1 ≤ 4) (by decide)
  obtain ⟨t, r, exponent, ht, hg⟩ :=
    hiff.mpr ⟨by rw [hexponent]; decide, fun h => hbelow h.1⟩
  obtain rfl := Option.some.inj (htext.symm.trans ht)
  exact ⟨hfinite, hzero, htext, r, exponent, hg⟩

/-! ## What is written instead -/

/-- The double nearest to `1.5e30`. -/
def largeScore : Binary64 := toBinary64 ⟨false, 15, 29⟩

theorem value_largeScore : largeScore.value = 1499999999999999889089448902656 := by
  have hscaled : largeScore.scaled = 1499999999999999889089448902656 * unitsPerOne := by
    decide +kernel
  rw [Binary64.value, hscaled]
  push_cast
  exact mul_div_cancel_right₀ _ unitsPerOne_cast_pos.ne'

/-- With a hundred digits its text denotes `1500`: the zero that is dropped
is one of the exponent. And a small number that needs 101 places has no text
with 98 digits. -/
theorem largeScore_is_misread :
    largeScore.isFinite = true ∧
      Binary64.generalWith? (.ofNat 100) largeScore = some ("1.5e+3" : Text) ∧
      (∀ full r exponent,
        ¬ IsGeneralText 100 largeScore.value full ("1.5e+3" : Text) r exponent) ∧
      Binary64.generalWith? (.ofNat 98) (toBinary64 ⟨false, 1, -4⟩) = none := by
  refine ⟨by decide +kernel, by decide +kernel, fun full r exponent hg => ?_, by decide +kernel⟩
  have hread : ofText? ("1.5e+3" : Text) = some ⟨false, 15, 2⟩ := by decide
  have hr : r = 1500 := by
    refine hg.denotes.unique ⟨_, hread, ?_⟩
    norm_num [value, size]
  have hdigits : HasDigits 100 largeScore.value :=
    ⟨1499999999999999889089448902656, 0, by norm_num, by rw [value_largeScore]; norm_num⟩
  have hle := hg.nearest.2 _ hdigits
  rw [hr, value_largeScore] at hle
  norm_num at hle

end Decimal

end ContestGrading
