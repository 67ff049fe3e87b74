import ContestGrading.Proofs.Decimal.General
import Mathlib.Data.EReal.Operations
/-!
# The ranking keeps the order of all scores

Both roundings of a score treat its sign and its magnitude apart, so that the
text of the opposite score denotes the opposite number. With that the order,
known of scores that are not negative, holds of all of them: a negative score
is the opposite of a positive one, and between the two signs lies zero. An
infinity is written by its name and is above or below everything else.

Results:
* `roundHalfEven_neg`, `toSignificant_neg`: the roundings of the opposite.
* `denoted?_scoreText`: the number that the text of a score denotes.
* `rankingValue_neg`, `rankingValue_mono`: it is odd and keeps the order.
* `scoreText_keeps_order`: the texts of two scores.
-/
namespace ContestGrading

namespace Binary64

variable {x y : Binary64}

/-! ## The opposite number -/

@[simp] theorem neg_finite (s : Bool) (u : Nat) (h : Representable u) :
    -(finite s u h) = finite (!s) u h := rfl

@[simp] theorem neg_infinite (s : Bool) : -(infinite s) = infinite (!s) := rfl

@[simp] theorem units_neg (x : Binary64) : (-x).units = x.units := by cases x <;> rfl

@[simp] theorem isFinite_neg (x : Binary64) : (-x).isFinite = x.isFinite := by cases x <;> rfl

@[simp] theorem isZero_neg (x : Binary64) : (-x).isZero = x.isZero := by cases x <;> rfl

@[simp] theorem exceedsFixed_neg (x : Binary64) : (-x).exceedsFixed = x.exceedsFixed := by
  rw [exceedsFixed, exceedsFixed, isFinite_neg, units_neg]

theorem neg_ne_nan (hx : x ≠ .nan) : -x ≠ .nan := by
  cases x with
  | nan => exact absurd rfl hx
  | infinite s => exact nofun
  | finite s u h => exact nofun

theorem negative_neg (hx : x ≠ .nan) : (-x).negative = !x.negative := by
  cases x with
  | nan => exact absurd rfl hx
  | infinite s => rfl
  | finite s u h => rfl

theorem rank_neg (x : Binary64) : (-x).rank = -x.rank := by
  cases x with
  | nan => rfl
  | infinite s => cases s <;> simp [rank_infinite]
  | finite s u h => cases s <;> simp [rank_finite, scaled]

theorem neg_le_neg (h : x ≤ y) : -y ≤ -x := by
  obtain ⟨hx, hy⟩ := ne_nan_of_le h
  rw [le_iff_rank hx hy] at h
  rw [le_iff_rank (neg_ne_nan hy) (neg_ne_nan hx), rank_neg, rank_neg]
  omega

theorem zero_le_neg (h : ¬ zero ≤ x) (hx : x ≠ .nan) : zero ≤ -x := by
  rw [le_iff_rank zero_ne_nan hx] at h
  rw [le_iff_rank zero_ne_nan (neg_ne_nan hx), rank_neg]
  rw [rank_zero] at h ⊢
  omega

theorem ofUnits_not (s : Bool) (u : Nat) : ofUnits (!s) u = -ofUnits s u := by
  unfold ofUnits
  split <;> rfl

end Binary64

namespace Decimal

open Binary64 (zero)

variable {x y : Binary64}

/-! ## Both roundings of the opposite -/

theorem toBinary64_not (negative : Bool) (coefficient : Nat) (exponent : Int) :
    toBinary64 ⟨!negative, coefficient, exponent⟩ =
      -toBinary64 ⟨negative, coefficient, exponent⟩ := by
  rw [toBinary64_eq, toBinary64_eq, Binary64.ofRatio_eq, Binary64.ofRatio_eq,
    ← Binary64.ofUnits_not]
  rfl

theorem evenCoefficient_neg (places : Nat) (x : Binary64) :
    evenCoefficient places (-x) = evenCoefficient places x := by
  cases x <;> rfl

/-- Rounded to places, the opposite is the opposite; only a zero loses its sign. -/
theorem roundHalfEven_neg (hx : x.isZero = false) (hn : x ≠ .nan) (places : Nat) :
    (-x).roundHalfEven places = -x.roundHalfEven places := by
  cases h : x.exceedsFixed with
  | true =>
    rw [Binary64.roundHalfEven_of_exceedsFixed h,
      Binary64.roundHalfEven_of_exceedsFixed (x.exceedsFixed_neg.trans h)]
  | false =>
    rw [roundHalfEven_eq h, roundHalfEven_eq (x.exceedsFixed_neg.trans h), evenCoefficient_neg,
      ← toBinary64_not]
    simp [Binary64.toFixed, hx, Binary64.negative_neg hn]

theorem toSignificant_neg (hx : 0 < x.units) (p : Nat) :
    (-x).toSignificant (p + 1) =
      ⟨!x.negative, (x.toSignificant (p + 1)).coefficient,
        (x.toSignificant (p + 1)).exponent⟩ := by
  have hn : x ≠ .nan := by
    rintro rfl
    exact Nat.lt_irrefl 0 hx
  have hexponent : (-x).decimalExponent = x.decimalExponent := by
    rw [Binary64.decimalExponent, Binary64.decimalExponent, Binary64.units_neg]
  rw [Binary64.toSignificant, Binary64.toSignificant, Binary64.isZero_neg, isZero_of_units_pos hx,
    hexponent, Binary64.units_neg, Binary64.negative_neg hn]
  dsimp only
  split
  next h => cases h
  next => split <;> rfl

/-- Rounded to significant digits, the opposite number has the opposite value. -/
theorem value_toSignificant_neg (hx : x.isFinite = true) (p : Nat) :
    ((-x).toSignificant (p + 1)).value = -(x.toSignificant (p + 1)).value := by
  rcases Nat.eq_zero_or_pos x.units with h0 | hpos
  · rw [value_of_size_zero (size_toSignificant_of_units_eq_zero hx h0 (p + 1)),
      value_of_size_zero (size_toSignificant_of_units_eq_zero (x.isFinite_neg.trans hx)
        (x.units_neg.trans h0) (p + 1)), neg_zero]
  · rw [toSignificant_neg hpos, value, value, toSignificant_negative hpos]
    cases x.negative with
    | true => exact (neg_neg _).symm
    | false => rfl

/-! ## What the ranking shows -/

/-- The number that a whole text denotes; the infinities have a name. -/
noncomputable def denoted? (t : Text) : Option EReal :=
  match ofText? t with
  | some d => some ((d.value : ℝ) : EReal)
  | none =>
    if t = Binary64.infinityText then some ⊤
    else if t = minus ++ Binary64.infinityText then some ⊥
    else none

theorem denoted?_of_ofText? {t : Text} {d : Decimal} (h : ofText? t = some d) :
    denoted? t = some ((d.value : ℝ) : EReal) := by
  rw [denoted?, h]

/-- The number that the ranking shows of a score: the score rounded to two
places and then to six digits. -/
noncomputable def rankingValue : Binary64 → EReal
  | .nan => 0
  | .infinite true => ⊥
  | .infinite false => ⊤
  | x@(.finite ..) => ((((x.roundHalfEven 2).toSignificant 6).value : ℝ) : EReal)

theorem rankingValue_of_isFinite (hx : x.isFinite = true) :
    rankingValue x = ((((x.roundHalfEven 2).toSignificant 6).value : ℝ) : EReal) := by
  obtain ⟨s, u, h, rfl⟩ := Binary64.exists_of_isFinite hx
  rfl

theorem denoted?_infinite (s : Bool) :
    denoted? (scoreText (.infinite s)) = some (rankingValue (.infinite s)) := by
  cases s with
  | false =>
    have hread : ofText? Binary64.infinityText = none := by decide
    show denoted? Binary64.infinityText = some ⊤
    rw [denoted?, hread]
    exact if_pos rfl
  | true =>
    have hread : ofText? (minus ++ Binary64.infinityText) = none := by decide
    have hne : minus ++ Binary64.infinityText ≠ Binary64.infinityText := by decide
    show denoted? (minus ++ Binary64.infinityText) = some ⊥
    rw [denoted?, hread]
    dsimp only
    rw [if_neg hne, if_pos rfl]

/-- The text of a score denotes a number, whatever the score. -/
theorem denoted?_scoreText (hx : x ≠ .nan) : denoted? (scoreText x) = some (rankingValue x) := by
  cases hfinite : x.isFinite with
  | true =>
    obtain ⟨d, hread, hvalue⟩ :=
      value_generalText (isFinite_roundHalfEven hfinite 2) (p := 5) (by decide)
    rw [rankingValue_of_isFinite hfinite, ← hvalue]
    exact denoted?_of_ofText? hread
  | false =>
    cases x with
    | nan => exact absurd rfl hx
    | infinite s => exact denoted?_infinite s
    | finite s u h => cases hfinite

theorem value_rounded_zero (s : Bool) (h : Binary64.Representable 0) :
    (((Binary64.finite s 0 h).roundHalfEven 2).toSignificant 6).value = 0 := by
  have hzero : ∀ t,
      (((Binary64.finite t 0 Binary64.representable_zero).roundHalfEven 2).toSignificant 6).value = 0 := by
    decide +kernel
  exact hzero s

/-- The opposite score is shown as the opposite number. -/
theorem rankingValue_neg (hx : x ≠ .nan) : rankingValue (-x) = -rankingValue x := by
  cases hfinite : x.isFinite with
  | false =>
    cases x with
    | nan => exact absurd rfl hx
    | infinite s => cases s <;> simp [rankingValue]
    | finite s u h => cases hfinite
  | true =>
    rw [rankingValue_of_isFinite hfinite, rankingValue_of_isFinite (x.isFinite_neg.trans hfinite)]
    cases hzero : x.isZero with
    | false =>
      rw [roundHalfEven_neg hzero hx,
        value_toSignificant_neg (isFinite_roundHalfEven hfinite 2) 5]
      push_cast
      rfl
    | true =>
      -- both zeros are rounded to the same one
      obtain ⟨s, u, h, rfl⟩ := Binary64.exists_of_isFinite hfinite
      obtain rfl : u = 0 := units_eq_zero_of_isZero hzero
      rw [Binary64.neg_finite, value_rounded_zero, value_rounded_zero]
      simp

theorem rankingValue_nonneg (hx : zero ≤ x) : 0 ≤ rankingValue x := by
  cases hfinite : x.isFinite with
  | false =>
    obtain rfl := Binary64.eq_infinity hx hfinite
    exact le_top
  | true =>
    have h := value_toSignificant_mono (x := zero) (y := x.roundHalfEven 2) Binary64.zero_le_zero
      (Binary64.roundHalfEven_nonneg hx 2) (isFinite_roundHalfEven hfinite 2) 5
    have hzero : (Binary64.toSignificant 6 zero).value = 0 := by decide +kernel
    rw [hzero] at h
    rw [rankingValue_of_isFinite hfinite]
    exact_mod_cast h

theorem rankingValue_mono_of_nonneg (hx : zero ≤ x) (h : x ≤ y) :
    rankingValue x ≤ rankingValue y := by
  cases hfinite : y.isFinite with
  | false =>
    rw [Binary64.eq_infinity (Binary64.le_trans hx h) hfinite]
    exact le_top
  | true =>
    have hxf := Binary64.isFinite_of_le hx h hfinite
    have hmono := value_toSignificant_mono (Binary64.roundHalfEven_nonneg hx 2)
      (Binary64.roundHalfEven_le hx h 2) (isFinite_roundHalfEven hfinite 2) 5
    rw [rankingValue_of_isFinite hxf, rankingValue_of_isFinite hfinite]
    exact_mod_cast hmono

/-- What is shown keeps the order of the scores. -/
theorem rankingValue_mono (h : x ≤ y) : rankingValue x ≤ rankingValue y := by
  obtain ⟨hx, hy⟩ := Binary64.ne_nan_of_le h
  by_cases hx0 : zero ≤ x
  · exact rankingValue_mono_of_nonneg hx0 h
  · have hxn : zero ≤ -x := Binary64.zero_le_neg hx0 hx
    have hxneg : rankingValue x = -rankingValue (-x) := by rw [rankingValue_neg hx, neg_neg]
    by_cases hy0 : zero ≤ y
    · -- zero lies between them
      calc rankingValue x = -rankingValue (-x) := hxneg
        _ ≤ 0 := by simpa using rankingValue_nonneg hxn
        _ ≤ rankingValue y := rankingValue_nonneg hy0
    · have hyn : zero ≤ -y := Binary64.zero_le_neg hy0 hy
      have hle := rankingValue_mono_of_nonneg hyn (Binary64.neg_le_neg h)
      rw [rankingValue_neg hx, rankingValue_neg hy] at hle
      exact EReal.neg_le_neg_iff.mp hle

/-- **The ranking never inverts two scores.** The texts of scores that are
numbers, infinities included, denote numbers in the order of the scores, and
the text of the opposite score denotes the opposite number. -/
theorem scoreText_keeps_order (hx : x ≠ .nan) (hy : y ≠ .nan) :
    ∃ a b : EReal, denoted? (scoreText x) = some a ∧ denoted? (scoreText y) = some b ∧
      (x ≤ y → a ≤ b) ∧ denoted? (scoreText (-x)) = some (-a) := by
  refine ⟨rankingValue x, rankingValue y, denoted?_scoreText hx, denoted?_scoreText hy,
    rankingValue_mono, ?_⟩
  rw [denoted?_scoreText (Binary64.neg_ne_nan hx), rankingValue_neg hx]

/-- A whole number of six digits, and the number half way to the next, which
has seven. -/
def sixNines (half : Nat) : Binary64 :=
  .ofRatio false ((2 * 999999 + half) * Binary64.unitsPerOne) 2

/-- The order is kept where the notation changes. -/
theorem scoreText_keeps_order_sixNines :
    sixNines 0 ≠ .nan ∧ sixNines 1 ≠ .nan ∧ sixNines 0 ≤ sixNines 1 ∧
      scoreText (sixNines 0) = ("999999" : Text) ∧ scoreText (sixNines 1) = ("1e+06" : Text) ∧
      ∃ a b, denoted? (scoreText (sixNines 0)) = some a ∧
        denoted? (scoreText (sixNines 1)) = some b ∧ a ≤ b ∧
        denoted? (scoreText (-sixNines 0)) = some (-a) := by
  have h0 : sixNines 0 ≠ .nan := by decide +kernel
  have h1 : sixNines 1 ≠ .nan := by decide +kernel
  have hle : sixNines 0 ≤ sixNines 1 := by decide +kernel
  obtain ⟨a, b, ha, hb, horder, hneg⟩ := scoreText_keeps_order h0 h1
  exact ⟨h0, h1, hle, by decide +kernel, by decide +kernel, a, b, ha, hb, horder hle, hneg⟩

end Decimal

end ContestGrading
