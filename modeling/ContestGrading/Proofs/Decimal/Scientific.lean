import ContestGrading.Proofs.Decimal.Plain
/-!
# Numerals with an exponent

A scientific numeral is a sign, one digit that is not zero, digits after a
point if there are any, and an exponent of at least two digits. It is lean if
its digits do not end in a zero. The exponent is that of the leading digit,
so it tells the magnitude of what is denoted.

Results:
* `Scientific.ofText?_text`: a scientific numeral reads as its value.
* `Scientific.size_strip`: zeros dropped at its end do not change that.
* `Scientific.scientificNotation_eq`: the layout of a coefficient with exactly
  the digits asked for is such a numeral, and so is what is left without zeros.
-/
namespace ContestGrading.Decimal

/-- A sign, a digit that is not zero, digits after the point, which stands
only before a digit, and the exponent. -/
structure Scientific where
  negative : Bool
  first : Nat
  fraction : List Nat
  exponent : Int
  first_pos : 0 < first
  first_lt : first < 10
  areDigits_fraction : AreDigits fraction

namespace Scientific

def mantissa (n : Scientific) : Text := digitText [n.first] ++ pointed n.fraction

def text (n : Scientific) : Text :=
  signText n.negative ++ n.mantissa ++ exponentText 2 n.exponent

/-- The magnitude that the numeral denotes. -/
def size (n : Scientific) : ℚ :=
  ofDigits (n.first :: n.fraction) * 10 ^ (n.exponent - n.fraction.length)

/-- No zero at the end of the fraction. -/
def IsLean (n : Scientific) : Prop := n.fraction.getLast? ≠ some 0

theorem areDigits_first (n : Scientific) : AreDigits [n.first] := by
  intro d hd
  rw [List.mem_singleton.mp hd]
  exact n.first_lt

/-! ## Reading -/

/-- Read back, a scientific numeral denotes its value. -/
theorem ofText?_text (n : Scientific) :
    ∃ d, ofText? n.text = some d ∧ d.negative = n.negative ∧ d.size = n.size := by
  have hexponent := readExponent_exponentText 2 n.exponent
  have hread := ofText?_numeral n.negative n.areDigits_first n.areDigits_fraction
    (List.cons_ne_nil _ _) (ends_exponentText 2 n.exponent) (by rw [hexponent])
  refine ⟨_, by rw [text, mantissa, List.append_assoc, List.append_assoc, hread], rfl, ?_⟩
  rw [hexponent]
  rfl

/-! ## Zeros at the end -/

/-- The numeral without the zeros at the end of its fraction. -/
def strip (n : Scientific) : Scientific :=
  { n with
    fraction := stripped n.fraction
    areDigits_fraction := areDigits_stripped n.areDigits_fraction }

theorem isLean_strip (n : Scientific) : n.strip.IsLean := getLast?_stripped n.fraction

theorem size_strip (n : Scientific) : n.strip.size = n.size := by
  obtain ⟨k, hlength, hvalue⟩ := ofDigits_append_stripped [n.first] n.fraction
  have hexponent : n.exponent - (stripped n.fraction).length =
      n.exponent - n.fraction.length + k := by omega
  show (ofDigits ([n.first] ++ stripped n.fraction) : ℚ) *
    10 ^ (n.exponent - (stripped n.fraction).length) =
      ofDigits ([n.first] ++ n.fraction) * 10 ^ (n.exponent - n.fraction.length)
  rw [hvalue, hexponent, zpow_add₀ (by norm_num), zpow_natCast]
  push_cast
  ring

theorem dropTrailingZeros_mantissa (n : Scientific) :
    dropTrailingZeros n.mantissa = n.strip.mantissa :=
  dropTrailingZeros_numeral (point_not_mem_digitText n.areDigits_first) n.areDigits_fraction

/-! ## The layout of a coefficient -/

/-- A coefficient of exactly as many digits as are asked for. -/
theorem exists_digits {p c : Nat} (hle : 10 ^ p ≤ c) (hlt : c < 10 ^ (p + 1)) :
    ∃ first ds, paddedDigits (p + 1) c = first :: ds ∧ 0 < first ∧ first < 10 ∧ AreDigits ds ∧
      ds.length = p := by
  have hc : 0 < c := Nat.lt_of_lt_of_le (Nat.pow_pos (by decide)) hle
  have hcount : digitCount c = p + 1 := by
    have h1 := (Nat.pow_lt_pow_iff_right (by decide)).mp
      (Nat.lt_of_le_of_lt hle (lt_pow_digitCount c))
    have h2 := (Nat.pow_lt_pow_iff_right (by decide)).mp
      (Nat.lt_of_le_of_lt (pow_le_of_digitCount hc) hlt)
    omega
  have hpadded : paddedDigits (p + 1) c = digits c := by
    rw [paddedDigits, hcount, Nat.sub_self]
    rfl
  have hdigits : AreDigits (digits c) := fun d hd => digit_lt hd
  have hhead := head?_digits_ne_zero hc
  obtain ⟨first, ds, hds⟩ := List.exists_cons_of_length_eq_add_one hcount
  rw [hds] at hdigits hhead
  obtain ⟨hfirst, hrest⟩ := List.forall_mem_cons.mp hdigits
  refine ⟨first, ds, hpadded.trans hds, Nat.pos_of_ne_zero fun h0 => hhead ?_, hfirst, hrest, ?_⟩
  · rw [h0, List.head?_cons]
  · rw [digitCount, hds, List.length_cons] at hcount
    omega

/-- Laid out, the coefficient has the exponent of its first digit. -/
theorem scientificNotation_eq (d : Decimal) {p : Nat} (hle : 10 ^ p ≤ d.coefficient)
    (hlt : d.coefficient < 10 ^ (p + 1)) :
    ∃ n : Scientific, d.scientificNotation (p + 1) 2 = n.text ∧
      pointAfterFirst (padZeros (p + 1) (natText d.coefficient)) = n.mantissa ∧
      n.negative = d.negative ∧ n.exponent = d.exponent + (p + 1 : Nat) - 1 ∧
      n.size = d.size := by
  obtain ⟨first, ds, hds, hpos, hfirst, hrest, hlen⟩ := exists_digits hle hlt
  have hvalue := ofDigits_paddedDigits (p + 1) d.coefficient
  have htext := padZeros_natText (p + 1) d.coefficient
  rw [hds] at hvalue htext
  refine ⟨⟨d.negative, first, ds, d.exponent + (p + 1 : Nat) - 1, hpos, hfirst, hrest⟩,
    ?_, ?_, rfl, rfl, ?_⟩
  · rw [scientificNotation, htext, pointAfterFirst_digitText, length_digitText, List.length_cons,
      hlen]
    rfl
  · rw [htext, pointAfterFirst_digitText]
    rfl
  · have hexponent : d.exponent + (p + 1 : Nat) - 1 - ds.length = d.exponent := by omega
    rw [size, hvalue, hexponent, Decimal.size]

end Scientific

end ContestGrading.Decimal
