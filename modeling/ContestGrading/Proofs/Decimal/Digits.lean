import ContestGrading.Decimal.Digits
import Mathlib.Algebra.Group.Nat.Defs
/-!
# How many digits a number has

A number above zero with `k` digits lies between `10 ^ (k - 1)` and `10 ^ k`.
Digits in front that are zero do not count, and zeros behind multiply by a
power of ten.

Results:
* `lt_pow_digitCount`, `pow_le_of_digitCount`: the powers of ten around a number.
* `head?_digits_ne_zero`: the first digit is not zero.
* `ofDigits_append`, `ofDigits_replicate`: digits of digits.
* `natText_eq`: the numeral of a number is its usual one.
-/
namespace ContestGrading.Decimal

theorem powerOfTen_eq (k : Nat) : powerOfTen k = 10 ^ k := rfl

theorem digitCount_of_lt {n : Nat} (h : n < 10) : digitCount n = 1 := by
  rw [digitCount, digits_of_lt h]
  rfl

theorem digitCount_of_ge {n : Nat} (h : 10 ≤ n) : digitCount n = digitCount (n / 10) + 1 := by
  rw [digitCount, digits_of_ge h, List.length_append]
  rfl

theorem digitCount_pos (n : Nat) : 0 < digitCount n :=
  List.length_pos_iff.mpr (digits_ne_nil n)

theorem lt_pow_digitCount (n : Nat) : n < 10 ^ digitCount n := by
  induction n using Nat.strongRecOn with
  | ind n ih =>
    by_cases h : n < 10
    · rw [digitCount_of_lt h]; omega
    · have := ih (n / 10) (by omega)
      rw [digitCount_of_ge (by omega), Nat.pow_succ]
      omega

theorem pow_le_of_digitCount {n : Nat} (hn : 0 < n) : 10 ^ (digitCount n - 1) ≤ n := by
  induction n using Nat.strongRecOn with
  | ind n ih =>
    by_cases h : n < 10
    · rw [digitCount_of_lt h]; omega
    · have hle := ih (n / 10) (by omega) (by omega)
      have hpos := digitCount_pos (n / 10)
      rw [digitCount_of_ge (by omega),
        show digitCount (n / 10) + 1 - 1 = digitCount (n / 10) - 1 + 1 by omega, Nat.pow_succ]
      omega

/-- A number above zero does not start with a zero. -/
theorem head?_digits_ne_zero {n : Nat} (hn : 0 < n) : (digits n).head? ≠ some 0 := by
  induction n using Nat.strongRecOn with
  | ind n ih =>
    by_cases h : n < 10
    · rw [digits_of_lt h, List.head?_cons]
      simp only [ne_eq, Option.some.injEq]
      omega
    · have hhead : (digits n).head? = (digits (n / 10)).head? := by
        rw [digits_of_ge (by omega), List.head?_append, List.head?_eq_some_head (digits_ne_nil _)]
        rfl
      rw [hhead]
      exact ih (n / 10) (by omega) (by omega)

/-! ## Digits in a row -/

theorem foldl_digits (ds : List Nat) (n : Nat) :
    ds.foldl (fun n d => 10 * n + d) n = n * 10 ^ ds.length + ofDigits ds := by
  induction ds generalizing n with
  | nil => simp [ofDigits]
  | cons d ds ih =>
    have hd : ofDigits (d :: ds) = d * 10 ^ ds.length + ofDigits ds := by
      show ds.foldl _ (10 * 0 + d) = _
      rw [Nat.mul_zero, Nat.zero_add, ih]
    rw [List.foldl_cons, ih, hd, List.length_cons, Nat.pow_succ, Nat.add_mul, Nat.mul_comm 10 n,
      Nat.mul_assoc, Nat.mul_comm 10, Nat.add_assoc]

theorem ofDigits_append (ds es : List Nat) :
    ofDigits (ds ++ es) = ofDigits ds * 10 ^ es.length + ofDigits es := by
  rw [ofDigits, List.foldl_append, foldl_digits]
  rfl

theorem ofDigits_replicate (k : Nat) : ofDigits (List.replicate k 0) = 0 := by
  induction k with
  | zero => rfl
  | succ k ih =>
    rw [List.replicate_succ', ofDigits_append, ih]
    rfl

/-! ## Numerals -/

theorem unitsOf_digitChar {d : Nat} (h : d < 10) :
    Text.ofString (String.singleton d.digitChar) = digitText [d] := by
  have hall : ∀ d < 10, Text.ofString (String.singleton (Nat.digitChar d)) = digitText [d] := by
    decide
  exact hall d h

/-- The numeral of a number is its usual one. -/
theorem natText_eq (n : Nat) : natText n = Text.ofString n.repr := by
  induction n using Nat.strongRecOn with
  | ind n ih =>
    by_cases h : n < 10
    · rw [natText, digits_of_lt h, Nat.repr_of_lt h, unitsOf_digitChar h]
    · have hten : 10 ≤ n := Nat.le_of_not_lt h
      have hlast : n % 10 < 10 := Nat.mod_lt n (by decide)
      rw [natText, digits_of_ge hten, digitText, List.map_append, Nat.repr_of_ge hten,
        Text.ofString_append, ← ih (n / 10) (by omega), unitsOf_digitChar hlast]
      rfl

end ContestGrading.Decimal
