import ContestGrading.Proofs.Decimal.General
import ContestGrading.Proofs.Template.Fill
/-!
# The general notation with its failures

Written step by step, the general notation asks for counts of digits that
may be out of range and fills a template that may refuse its arguments. The
numbers written here have every one of these steps as one that may fail:
the digits of the mantissa, the places of the positional form and the
template of the exponential one.

With up to 97 significant digits no step fails, whatever the number: the
exponents of doubles have at most four digits, and below the switch to the
exponential form no more than 100 places are asked for.

Results:
* `decimalExponent_bound`: the exponents of doubles.
* `Checked.generalText_eq`: the general notation never fails.
* `Checked.scoreText_eq`: nor does the text of a score.
-/
namespace ContestGrading

/-! ## Exponents of doubles -/

namespace Decimal

variable {x : Binary64}

theorem digitCount_le_of_lt_two_pow {n k : Nat} (h : n < 2 ^ k) : digitCount n ≤ k + 1 := by
  rcases Nat.eq_zero_or_pos n with h0 | hpos
  · rw [h0, digitCount_of_lt (by decide)]
    omega
  · have hlt : 10 ^ (digitCount n - 1) < 10 ^ k :=
      calc 10 ^ (digitCount n - 1) ≤ n := pow_le_of_digitCount hpos
        _ < 2 ^ k := h
        _ ≤ 10 ^ k := Nat.pow_le_pow_left (by decide) k
    have := (Nat.pow_lt_pow_iff_right (by decide)).mp hlt
    omega

/-- An exponent has at most four digits. -/
theorem decimalExponent_bound (x : Binary64) : x.decimalExponent.natAbs ≤ 2099 := by
  have hlimit : Binary64.overflowLimit ≤ 2 ^ 2098 := by decide +kernel
  have hone : Binary64.unitsPerOne ≤ 2 ^ 2098 := by decide +kernel
  have hpos := Binary64.unitsPerOne_pos
  have hunits := Nat.lt_of_lt_of_le x.units_lt hlimit
  rw [Binary64.decimalExponent, Binary64.leadingExponent]
  split
  · have := digitCount_le_of_lt_two_pow
      (Nat.lt_of_le_of_lt (Nat.div_le_self x.units Binary64.unitsPerOne) hunits)
    omega
  · have := digitCount_le_of_lt_two_pow (k := 2098)
      (Nat.lt_of_le_of_lt (Nat.div_le_self (Binary64.unitsPerOne - 1) x.units) (by omega))
    omega

theorem generalExponent_bound (hx : 0 < x.units) (p : Nat) :
    (x.generalExponent (p + 1)).natAbs ≤ 2100 := by
  have := decimalExponent_bound x
  have := generalExponent_cases hx p
  omega

/-! ## Cutting off the exponent -/

theorem span_exponent {front : Text} (h : 101 ∉ front) (width : Nat) (exponent : Int) :
    (front ++ exponentText width exponent).span (· != 101) =
      (front, exponentText width exponent) := by
  have hfront : ∀ u ∈ front, (u != 101) = true := by
    intro u hu
    exact bne_iff_ne.mpr fun e => h (by rwa [e] at hu)
  rw [List.span_eq_takeWhile_dropWhile, List.takeWhile_append_of_pos hfront,
    List.dropWhile_append_of_pos hfront]
  simp [exponentText]

end Decimal

/-! ## Numbers written with failures -/

namespace Checked

open Decimal

/-- A notation with a count of digits, which may be negative too. -/
def counted (write : Option Nat → Binary64 → Except TemplateError Text) (count : Int)
    (x : Binary64) : Except TemplateError Text :=
  if count < 0 then .error .digitCount else write (some count.toNat) x

/-- One of the two layouts, by the exponent of the leading digit. -/
def layout (precision : Int) (x : Binary64) (mantissa : Text) (exponent : Int) :
    Except TemplateError Text :=
  if exponent < -4 ∨ precision ≤ exponent then
    Template.format Template.exponentialTemplate
      [.text (dropTrailingZeros mantissa), .number (.ofInt exponent)]
  else
    (counted Template.fixedOf (precision - 1 - exponent) x).map dropTrailingZeros

/-- The general notation: the exponential notation is written and cut into
mantissa and exponent, and these are laid out. -/
def generalText (precision : Int) (x : Binary64) : Except TemplateError Text :=
  if x.isZero then .ok [48]
  else if !x.isFinite then .ok x.toText
  else do
    let written ← counted Template.exponentialOf (precision - 1) x
    let (mantissa, rest) := written.span (· != 101)
    layout precision x mantissa (readExponent rest).1

/-- The text of a score in the ranking. -/
def scoreText (score : Binary64) : Except TemplateError Text :=
  match score.halfEven? 2 with
  | none => .error .digitCount
  | some rounded => generalText defaultPrecision rounded

theorem counted_exponential {x : Binary64} (hx : x.isFinite = true) {places : Nat}
    (h : places ≤ Template.digitLimit) :
    counted Template.exponentialOf places x = .ok (x.exponentialText places) := by
  rw [counted, if_neg (by omega), Int.toNat_natCast, Template.exponentialOf, hx,
    if_neg (by decide), if_neg (by omega)]

theorem counted_fixed (x : Binary64) {places : Nat} (h : places ≤ Template.digitLimit) :
    counted Template.fixedOf places x = .ok (x.fixedText places) := by
  rw [counted, if_neg (by omega), Int.toNat_natCast, Template.fixedOf, if_neg (by omega)]

variable {x : Binary64}

/-- The exponential notation is cut where the exponent starts. -/
theorem span_exponentialText (hx : 0 < x.units) (p : Nat) :
    ∃ mantissa, (x.exponentialText p).span (· != 101) =
        (mantissa, exponentText 1 (x.generalExponent (p + 1))) ∧
      x.generalExponential (p + 1) =
        dropTrailingZeros mantissa ++ exponentText 2 (x.generalExponent (p + 1)) := by
  obtain ⟨first, ds, hds, hfirst, hrest, hlen⟩ := digits_toSignificant hx p
  have hexponent : x.generalExponent (p + 1) =
      (x.toSignificant (p + 1)).exponent + (p + 1 : Nat) - 1 := rfl
  have hfinite := isFinite_of_units_pos hx
  rw [Binary64.exponentialText, if_pos hfinite, Binary64.generalExponential]
  generalize x.toSignificant (p + 1) = s at hds hexponent ⊢
  have htext := padZeros_natText (p + 1) s.coefficient
  rw [hds] at htext
  have hone : AreDigits [first] := fun d hd => by rwa [List.mem_singleton.mp hd]
  have hsign : 46 ∉ signText s.negative ∧ 101 ∉ signText s.negative := by
    cases s.negative <;> decide
  have hpoint : 46 ∉ signText s.negative ++ digitText [first] := by
    rw [List.mem_append, not_or]
    exact ⟨hsign.1, point_not_mem_digitText hone⟩
  have hunit : 101 ∉ signText s.negative ++ (digitText [first] ++ pointed ds) := by
    rw [List.mem_append, List.mem_append, not_or, not_or]
    refine ⟨hsign.2, not_mem_digitText (by decide) hone, ?_⟩
    cases ds with
    | nil => exact List.not_mem_nil
    | cons d ds =>
      rw [pointed, List.mem_cons, not_or]
      exact ⟨by decide, not_mem_digitText (by decide) hrest⟩
  have hlayout : s.scientificNotation (p + 1) 1 =
      signText s.negative ++ (digitText [first] ++ pointed ds) ++
        exponentText 1 (x.generalExponent (p + 1)) := by
    rw [scientificNotation, htext, pointAfterFirst_digitText, length_digitText, List.length_cons,
      hlen, hexponent]
  have hdrop : dropTrailingZeros (signText s.negative ++ (digitText [first] ++ pointed ds)) =
      signText s.negative ++ (digitText [first] ++ pointed (stripped ds)) := by
    rw [← List.append_assoc, dropTrailingZeros_numeral hpoint hrest, List.append_assoc]
  refine ⟨signText s.negative ++ (digitText [first] ++ pointed ds), ?_, ?_⟩
  · rw [hlayout, span_exponent hunit]
  · rw [hdrop, htext, pointAfterFirst_digitText,
      dropTrailingZeros_numeral (point_not_mem_digitText hone) hrest]

/-- Neither layout fails. -/
theorem layout_eq {p : Nat} (hp : p ≤ 96) (mantissa : Text) {exponent : Int}
    (hbound : exponent.natAbs ≤ 2100) :
    layout (p + 1 : Nat) x mantissa exponent =
      .ok (if exponent < -4 ∨ (p + 1 : Nat) ≤ exponent then
          dropTrailingZeros mantissa ++ exponentText 2 exponent
        else x.generalPositional ((p + 1 : Nat) - 1 - exponent).toNat) := by
  unfold layout
  split
  next => exact Template.format_exponentialTemplate _ (by omega)
  next h =>
    obtain ⟨places, hplaces⟩ : ∃ places : Nat, ((p + 1 : Nat) : Int) - 1 - exponent = places :=
      Int.eq_ofNat_of_zero_le (by omega)
    rw [hplaces, counted_fixed x (by rw [Template.digitLimit]; omega)]
    rfl

/-- The general notation never fails. -/
theorem generalText_eq (x : Binary64) {p : Nat} (hp : p ≤ 96) :
    generalText (p + 1 : Nat) x = .ok (x.generalText (p + 1)) := by
  unfold generalText Binary64.generalText
  cases hzero : x.isZero with
  | true => rfl
  | false =>
    cases hfinite : x.isFinite with
    | false => rfl
    | true =>
      have hx : 0 < x.units := Nat.pos_of_ne_zero fun h0 => by
        rw [isZero_of_units_eq_zero hfinite h0] at hzero
        cases hzero
      obtain ⟨mantissa, hspan, hlayout⟩ := span_exponentialText hx p
      have hwritten : counted Template.exponentialOf ((p + 1 : Nat) - 1) x =
          .ok (x.exponentialText p) := by
        rw [show ((p + 1 : Nat) : Int) - 1 = p by omega]
        exact counted_exponential hfinite (by rw [Template.digitLimit]; omega)
      rw [hwritten]
      show layout _ x ((x.exponentialText p).span _).1
        (readExponent ((x.exponentialText p).span _).2).1 = _
      rw [hspan, readExponent_exponentText, layout_eq hp _ (generalExponent_bound hx p),
        ← hlayout]
      rfl

/-- **The text of a score is always written.** No count of digits is out of
range, and no template refuses its arguments. -/
theorem scoreText_eq (score : Binary64) : scoreText score = .ok (ContestGrading.scoreText score) := by
  have hrounded : score.halfEven? 2 = some (score.roundHalfEven 2) := by
    rw [Binary64.halfEven?]
    split
    next h => rw [Binary64.roundHalfEven_of_exceedsFixed h]
    next => rfl
  rw [scoreText, hrounded]
  exact generalText_eq _ (by decide : 5 ≤ 96)

end Checked

end ContestGrading
