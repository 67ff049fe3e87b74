import ContestGrading.Text.Basic
/-!
# Decimal digits

`digits` lists the decimal digits of a natural number, the most significant
first, and `ofDigits` reads such a list back.

Results:
* `ofDigits_digits`: the digits denote the number.
* `digits_ne_nil`, `digit_lt`: there is a digit, and each is below ten.
-/
namespace ContestGrading.Decimal

/-- The digits of `n` in front of `rest`. -/
def prependDigits (n : Nat) (rest : List Nat) : List Nat :=
  if n < 10 then n :: rest else prependDigits (n / 10) (n % 10 :: rest)

/-- The decimal digits, the most significant first; zero has one digit. -/
def digits (n : Nat) : List Nat := prependDigits n []

/-- The number that a list of digits denotes. -/
def ofDigits (ds : List Nat) : Nat := ds.foldl (fun n d => 10 * n + d) 0

def digitCount (n : Nat) : Nat := (digits n).length

def powerOfTen (k : Nat) : Nat := Nat.pow 10 k

/-! ## Laws -/

theorem prependDigits_of_lt {n : Nat} (h : n < 10) (rest : List Nat) :
    prependDigits n rest = n :: rest := by
  rw [prependDigits, if_pos h]

theorem prependDigits_of_ge {n : Nat} (h : 10 ≤ n) (rest : List Nat) :
    prependDigits n rest = prependDigits (n / 10) (n % 10 :: rest) := by
  rw [prependDigits, if_neg (Nat.not_lt.mpr h)]

theorem prependDigits_eq (n : Nat) (rest : List Nat) :
    prependDigits n rest = digits n ++ rest := by
  induction n using Nat.strongRecOn generalizing rest with
  | ind n ih =>
    unfold digits
    by_cases h : n < 10
    · rw [prependDigits_of_lt h, prependDigits_of_lt h]; rfl
    · have h : 10 ≤ n := Nat.le_of_not_lt h
      rw [prependDigits_of_ge h, prependDigits_of_ge h, ih (n / 10) (by omega),
        ih (n / 10) (by omega) [n % 10], List.append_assoc]
      rfl

theorem digits_of_lt {n : Nat} (h : n < 10) : digits n = [n] := prependDigits_of_lt h []

theorem digits_of_ge {n : Nat} (h : 10 ≤ n) : digits n = digits (n / 10) ++ [n % 10] := by
  rw [digits, prependDigits_of_ge h, prependDigits_eq]

theorem ofDigits_concat (ds : List Nat) (d : Nat) :
    ofDigits (ds ++ [d]) = 10 * ofDigits ds + d := by
  simp [ofDigits]

theorem ofDigits_digits (n : Nat) : ofDigits (digits n) = n := by
  induction n using Nat.strongRecOn with
  | ind n ih =>
    by_cases h : n < 10
    · simp [digits_of_lt h, ofDigits]
    · rw [digits_of_ge (by omega), ofDigits_concat, ih (n / 10) (by omega)]
      omega

theorem digits_ne_nil (n : Nat) : digits n ≠ [] := by
  by_cases h : n < 10
  · simp [digits_of_lt h]
  · simp [digits_of_ge (Nat.le_of_not_lt h)]

theorem digit_lt {n d : Nat} (h : d ∈ digits n) : d < 10 := by
  induction n using Nat.strongRecOn with
  | ind n ih =>
    by_cases hn : n < 10
    · simp [digits_of_lt hn] at h; omega
    · rw [digits_of_ge (by omega), List.mem_append, List.mem_singleton] at h
      rcases h with h | h
      · exact ih (n / 10) (by omega) h
      · omega

/-! ## As text -/

def digitText (ds : List Nat) : Text := ds.map fun d => UInt16.ofNat (48 + d)

/-- The decimal numeral of a natural number. -/
def natText (n : Nat) : Text := digitText (digits n)

end ContestGrading.Decimal
