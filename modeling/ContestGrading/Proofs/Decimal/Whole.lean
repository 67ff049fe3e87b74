import ContestGrading.Decimal.Notation
import ContestGrading.Proofs.Decimal.Nearest
import ContestGrading.Proofs.Decimal.Numeral
import ContestGrading.Proofs.Decimal.Rounding
/-!
# Whole numbers in the plain notation

The plain notation of a whole number below `2 ^ 53` is its sign and its
decimal digits. The search for the shortest decimal ends at a decimal that
is the number itself: the lower neighbour on a coarser grid reads back only
if it is the number, and the upper one never does.

Results:
* `toBinary64_whole`: a whole decimal is read as its own double.
* `shortest_whole`: the shortest decimal of a whole number is the number.
* `toText_ofInt`: the plain notation of a whole number.
* `leadingInteger_numeral`: it is read back.
-/
namespace ContestGrading

namespace Decimal

open Binary64 (unitsPerOne)

/-! ## Digits of a multiple of a power of ten -/

theorem digits_mul_pow {n : Nat} (hn : 0 < n) (k : Nat) :
    digits (n * 10 ^ k) = digits n ++ List.replicate k 0 := by
  induction k with
  | zero => simp
  | succ k ih =>
    have hpos : 0 < n * 10 ^ k := Nat.mul_pos hn (Nat.pow_pos (by decide))
    have hmul : n * 10 ^ (k + 1) = n * 10 ^ k * 10 := by rw [Nat.pow_succ, Nat.mul_assoc]
    rw [hmul, digits_of_ge (by omega), Nat.mul_div_cancel _ (by decide), Nat.mul_mod_left, ih,
      List.replicate_succ', List.append_assoc]

theorem digitCount_mul_pow {n : Nat} (hn : 0 < n) (k : Nat) :
    digitCount (n * 10 ^ k) = digitCount n + k := by
  rw [digitCount, digits_mul_pow hn, List.length_append, List.length_replicate, digitCount]

/-- Normalizing moves trailing zeros into the exponent. -/
theorem normalize_eq (d : Decimal) :
    ∃ k : Nat, d.coefficient = d.normalize.coefficient * 10 ^ k ∧
      d.normalize.exponent = d.exponent + k ∧ d.normalize.negative = d.negative := by
  induction d using normalize.induct with
  | case1 d h ih =>
    obtain ⟨k, hc, he, hn⟩ := ih
    rw [normalize, dif_pos h]
    refine ⟨k + 1, ?_, ?_, hn⟩
    · rw [Nat.pow_succ, ← Nat.mul_assoc, ← hc, Nat.div_mul_cancel h.2]
    · rw [he, Nat.cast_succ, Int.add_assoc, Int.add_comm 1]
  | case2 d h =>
    rw [normalize, dif_neg h]
    exact ⟨0, by simp, by simp, rfl⟩

theorem size_normalize (d : Decimal) : d.normalize.size = d.size := by
  obtain ⟨k, hc, he, -⟩ := normalize_eq d
  rw [size, size, hc, he, zpow_add₀ (by norm_num), zpow_natCast]
  push_cast
  ring

/-! ## Whole decimals -/

theorem toBinary64_whole (negative : Bool) (coefficient k : Nat) :
    toBinary64 ⟨negative, coefficient, k⟩ =
      .ofRatio negative (coefficient * 10 ^ k * unitsPerOne) 1 :=
  toBinary64_eq _

end Decimal

namespace Binary64

open Decimal

/-- The whole number of that sign and magnitude. -/
def whole (negative : Bool) (n : Nat) (h : n < 2 ^ 53) : Binary64 :=
  .finite negative (n * unitsPerOne) (representable_mul_unitsPerOne (Nat.le_of_lt h))

variable {negative : Bool} {n : Nat}

@[simp] theorem units_whole (h : n < 2 ^ 53) : (whole negative n h).units = n * unitsPerOne := rfl

@[simp] theorem negative_whole (h : n < 2 ^ 53) : (whole negative n h).negative = negative := rfl

theorem overPowerOfTen_natCast (units k : Nat) :
    overPowerOfTen units k = (units, unitsPerOne * 10 ^ k) := rfl

theorem ofRatio_eq_whole (negative : Bool) (h : n < 2 ^ 53) :
    ofRatio negative (n * unitsPerOne) 1 = whole negative n h :=
  ofRatio_representable _

theorem isInteger_ofNat (h : n < 2 ^ 53) : (ofNat n).isInteger = true := by
  rw [ofNat, ofRatio_eq_whole false h]
  exact beq_iff_eq.mpr (Nat.mul_mod_left n unitsPerOne)

theorem truncate_ofNat (h : n < 2 ^ 53) : (ofNat n).truncate = n := by
  rw [ofNat, ofRatio_eq_whole false h, truncate, units_whole,
    Nat.mul_div_cancel _ unitsPerOne_pos]
  rfl

theorem decimalExponent_whole (h : n < 2 ^ 53) (hn : 0 < n) :
    (whole negative n h).decimalExponent = digitCount n - 1 := by
  have hle : unitsPerOne ≤ n * unitsPerOne := Nat.le_mul_of_pos_left _ hn
  show leadingExponent (n * unitsPerOne) unitsPerOne = _
  rw [leadingExponent, if_pos hle, Nat.mul_div_cancel _ unitsPerOne_pos]

/-- Rounding tells whole numbers apart. -/
theorem ofRatio_eq_whole_iff (h : n < 2 ^ 53) {m : Nat} :
    ofRatio negative (m * unitsPerOne) 1 = whole negative n h ↔ m = n := by
  have hcancel : ∀ {a b : Nat}, a * unitsPerOne ≤ b * unitsPerOne → a ≤ b :=
    fun hle => Nat.le_of_mul_le_mul_right hle unitsPerOne_pos
  constructor
  · intro heq
    rcases Nat.lt_or_ge n m with hlt | hge
    · -- the next whole number is a double as well, so no greater one is rounded to this
      have hnext : (n + 1) * unitsPerOne ≤ (ofRatio negative (m * unitsPerOne) 1).magnitude := by
        rw [magnitude_ofRatio _ Nat.one_pos]
        refine le_rounded Nat.one_pos (.inl (representable_mul_unitsPerOne h)) ?_
        rw [Nat.mul_one]
        exact Nat.mul_le_mul_right _ hlt
      rw [heq] at hnext
      exact absurd (hcancel hnext) (Nat.not_succ_le_self n)
    · rw [ofRatio_eq_whole negative (Nat.lt_of_le_of_lt hge h)] at heq
      injection heq with _ hunits
      exact Nat.le_antisymm hge (hcancel hunits.ge)
  · rintro rfl
    exact ofRatio_eq_whole negative h

theorem readsBack_whole (negative : Bool) (h : n < 2 ^ 53) (coefficient k : Nat) :
    readsBack (whole negative n h) ⟨negative, coefficient, k⟩ =
      decide (coefficient * 10 ^ k = n) := by
  rw [readsBack, toBinary64_whole]
  exact decide_eq_decide.mpr (ofRatio_eq_whole_iff h)

theorem digitCount_le_sixteen (h : n < 2 ^ 53) (hn : 0 < n) : digitCount n ≤ 16 := by
  have hlt : 10 ^ (digitCount n - 1) < 10 ^ 16 :=
    Nat.lt_of_le_of_lt (pow_le_of_digitCount hn) (Nat.lt_of_lt_of_le h (by decide))
  have := (Nat.pow_lt_pow_iff_right (by decide)).mp hlt
  omega

theorem zero_le_ofInt_iff {n : Int} (h : n.natAbs < 2 ^ 53) : zero ≤ ofInt n ↔ 0 ≤ n := by
  rw [ofInt, ofRatio_eq_whole _ h, nonneg_iff]
  constructor
  · rintro ⟨-, hzero⟩
    by_contra hn
    have hunits : n.natAbs * unitsPerOne = 0 := hzero (decide_eq_true (by omega))
    rcases Nat.mul_eq_zero.mp hunits with h0 | h0
    · omega
    · exact absurd h0 (Nat.ne_of_gt unitsPerOne_pos)
  · intro hn
    exact ⟨nofun, fun hneg => absurd (of_decide_eq_true hneg) (by omega)⟩

/-! ## The shortest decimal -/

/-- Where the upper neighbour does not read back, the lower one decides. -/
theorem shortestOn?_of_upper {x : Binary64} {count num den : Nat} {k : Int}
    (hk : x.decimalExponent + 1 - count = k) (hq : overPowerOfTen x.units k = (num, den))
    (hupper : readsBack x ⟨x.negative, num / den + 1, k⟩ = false) :
    shortestOn? x count =
      if readsBack x ⟨x.negative, num / den, k⟩ then some ⟨x.negative, num / den, k⟩ else none := by
  subst hk
  unfold shortestOn?
  dsimp only
  rw [hq]
  dsimp only
  rw [hupper]
  cases readsBack x ⟨x.negative, num / den, x.decimalExponent + 1 - count⟩ <;> rfl

/-- What is found on a grid is one of the two neighbours. -/
theorem shortestOn?_cases {x : Binary64} {p : Nat} {d : Decimal}
    (h : shortestOn? x (p + 1) = some d) :
    let quotient := overPowerOfTen x.units (lastExponent (p + 1) x)
    d.negative = x.negative ∧ d.exponent = lastExponent (p + 1) x ∧
      (d.coefficient = quotient.1 / quotient.2 ∨ d.coefficient = quotient.1 / quotient.2 + 1) := by
  unfold shortestOn? at h
  rw [← lastExponent] at h
  dsimp only at h
  split at h
  · split at h
    · cases h
      exact ⟨rfl, rfl, .inl rfl⟩
    · cases h
      exact ⟨rfl, rfl, .inr rfl⟩
  · cases h
    exact ⟨rfl, rfl, .inl rfl⟩
  · cases h
    exact ⟨rfl, rfl, .inr rfl⟩
  · cases h

/-- Something is found if one of them reads back. -/
theorem isSome_shortestOn? {x : Binary64} {p coefficient : Nat}
    (h : readsBack x ⟨x.negative, coefficient, lastExponent (p + 1) x⟩ = true)
    (hc : coefficient = (overPowerOfTen x.units (lastExponent (p + 1) x)).1 /
        (overPowerOfTen x.units (lastExponent (p + 1) x)).2 ∨
      coefficient = (overPowerOfTen x.units (lastExponent (p + 1) x)).1 /
        (overPowerOfTen x.units (lastExponent (p + 1) x)).2 + 1) :
    (shortestOn? x (p + 1)).isSome := by
  unfold shortestOn?
  rw [← lastExponent]
  dsimp only
  split
  · split <;> rfl
  · rfl
  · rfl
  next hlower hupper =>
    rcases hc with rfl | rfl
    · rw [h] at hlower
      cases hlower
    · rw [h] at hupper
      cases hupper

/-- On a grid of whole numbers the decimal found is the number itself. -/
theorem shortestOn?_whole (h : n < 2 ^ 53) (hn : 0 < n) {count k : Nat}
    (hk : count + k = digitCount n) :
    shortestOn? (whole negative n h) count =
      if n / 10 ^ k * 10 ^ k = n then some ⟨negative, n / 10 ^ k, k⟩ else none := by
  have hexponent : (whole negative n h).decimalExponent + 1 - count = k := by
    rw [decimalExponent_whole h hn]
    omega
  have hdiv : n * unitsPerOne / (unitsPerOne * 10 ^ k) = n / 10 ^ k := by
    rw [Nat.mul_comm n, Nat.mul_div_mul_left _ _ unitsPerOne_pos]
  have hnext : (n / 10 ^ k + 1) * 10 ^ k ≠ n := by
    have := Nat.lt_div_mul_add (a := n) (Nat.pow_pos (by decide) : 0 < 10 ^ k)
    rw [Nat.add_mul, Nat.one_mul]
    omega
  have hupper := readsBack_whole negative h (n / 10 ^ k + 1) k
  rw [decide_eq_false hnext, ← hdiv] at hupper
  rw [shortestOn?_of_upper hexponent (overPowerOfTen_natCast _ _) hupper, units_whole, hdiv,
    negative_whole, readsBack_whole]
  simp only [decide_eq_true_eq]

theorem findSome?_range {α : Type} {f : Nat → Option α} {m n : Nat} (h : m < n)
    (hm : (f m).isSome) : ∃ i ≤ m, ∃ a, f i = some a ∧ (List.range n).findSome? f = some a := by
  obtain ⟨d, rfl⟩ : ∃ d, n = m + 1 + d := ⟨n - (m + 1), by omega⟩
  have hsome : ((List.range (m + 1)).findSome? f).isSome := by
    rw [List.findSome?_isSome_iff]
    exact ⟨m, List.mem_range.mpr (Nat.lt_succ_self m), hm⟩
  obtain ⟨a, ha⟩ := Option.isSome_iff_exists.mp hsome
  obtain ⟨i, hi, hf⟩ := List.exists_of_findSome?_eq_some ha
  refine ⟨i, Nat.le_of_lt_succ (List.mem_range.mp hi), a, hf, ?_⟩
  rw [List.range_add, List.findSome?_append, ha]
  rfl

/-- The shortest decimal of a whole number is that number, without trailing zeros. -/
theorem shortest_whole (negative : Bool) (h : n < 2 ^ 53) (hn : 0 < n) :
    ∃ coefficient k : Nat, coefficient * 10 ^ k = n ∧
      (whole negative n h).shortest = ⟨negative, coefficient, k⟩ := by
  have hpos := digitCount_pos n
  have hcount := digitCount_le_sixteen h hn
  have hlast : (shortestOn? (whole negative n h) (digitCount n - 1 + 1)).isSome := by
    rw [shortestOn?_whole (k := 0) h hn (by omega), if_pos (by simp)]
    rfl
  obtain ⟨i, hi, d, hfound, hsearch⟩ := findSome?_range (f := fun i =>
    shortestOn? (whole negative n h) (i + 1)) (by omega : digitCount n - 1 < 17) hlast
  rw [shortestOn?_whole (k := digitCount n - (i + 1)) h hn (by omega)] at hfound
  split at hfound
  next hdvd =>
    generalize digitCount n - (i + 1) = k at hfound hdvd
    obtain rfl := Option.some.inj hfound
    obtain ⟨j, hc, he, hs⟩ := Decimal.normalize_eq ⟨negative, n / 10 ^ k, k⟩
    dsimp only at hc he hs
    refine ⟨(Decimal.normalize ⟨negative, n / 10 ^ k, k⟩).coefficient, k + j, ?_, ?_⟩
    · rw [Nat.add_comm, Nat.pow_add, ← Nat.mul_assoc, ← hc, hdvd]
    · rw [shortest, hsearch, Option.getD_some, Decimal.mk.injEq]
      exact ⟨hs, rfl, he⟩
  next => cases hfound

/-! ## Written and read -/

theorem finiteText_whole (h : n < 2 ^ 53) (hn : 0 < n) :
    (whole negative n h).finiteText = signText negative ++ natText n := by
  obtain ⟨c, k, rfl, hshortest⟩ := shortest_whole negative h hn
  have hc : 0 < c := Nat.pos_of_mul_pos_right hn
  have hcount := digitCount_le_sixteen h hn
  rw [digitCount_mul_pow hc] at hcount
  have hlength : (natText c).length = digitCount c := length_digitText _
  have hpos := digitCount_pos c
  have htext : positional (natText c) (k + digitCount c : Int) = natText (c * 10 ^ k) := by
    rw [positional, if_neg (by omega), hlength, if_pos (by omega),
      show (k + digitCount c : Int).natAbs - digitCount c = k by omega, natText, natText,
      digits_mul_pow hc, digitText_append]
    simp only [digitText, List.map_replicate, zeros]
    rfl
  rw [finiteText, hshortest]
  dsimp only
  rw [hlength, if_pos (by omega), htext]

/-- The plain notation of a whole number. -/
theorem toText_ofInt {n : Int} (h : n.natAbs < 2 ^ 53) :
    (ofInt n).toText = signText (n < 0) ++ natText n.natAbs := by
  rw [ofInt, ofRatio_eq_whole _ h]
  rcases Nat.eq_zero_or_pos n.natAbs with h0 | hpos
  · obtain rfl := Int.natAbs_eq_zero.mp h0
    have hzero : (whole (decide ((0 : Int) < 0)) (Int.natAbs 0) h).isZero = true := by
      show 0 * unitsPerOne == 0
      rw [Nat.zero_mul]
      rfl
    have htext : natText (Int.natAbs 0) = [48] := by
      rw [Int.natAbs_zero, natText, digits_of_lt (by decide)]
      rfl
    rw [htext]
    exact if_pos hzero
  · have hunits : 0 < (whole (n < 0) n.natAbs h).units := Nat.mul_pos hpos unitsPerOne_pos
    rw [← finiteText_whole h hpos]
    exact if_neg (ne_true_of_eq_false (isZero_of_units_pos hunits))

/-- The digits of a whole number are read as the number. -/
theorem leadingInteger_numeral (n : Int) :
    leadingInteger (signText (n < 0) ++ natText n.natAbs) = ofInt n := by
  have hdigits : AreDigits (digits n.natAbs) := fun d hd => digit_lt hd
  have hne := digits_ne_nil n.natAbs
  have hspan := spanDigits_digitText hdigits noDigitHead_nil
  obtain ⟨d, ds, hds⟩ := List.exists_cons_of_ne_nil hne
  have htext : signText (n < 0) ++ natText n.natAbs =
      signText (n < 0) ++ (digitText (digits n.natAbs) ++ []) := by
    rw [List.append_nil, natText]
  rw [htext, leadingInteger, trimStart_numeral _ hdigits hne, readSign_signText _ hdigits hne]
  dsimp only
  rw [hspan, hds]
  dsimp only
  have hread := toBinary64_whole (n < 0) n.natAbs 0
  rw [Nat.pow_zero, Nat.mul_one] at hread
  rw [← hds, ofDigits_digits]
  exact hread

end Binary64

end ContestGrading
