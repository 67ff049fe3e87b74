import ContestGrading.Proofs.Decimal.Layout
import ContestGrading.Proofs.Decimal.ReadBack
/-!
# What the plain notation denotes

The plain notation of a finite double lays out the shortest decimal that is
read back, positional or with an exponent, and either layout denotes that
decimal. So the number in the text need not be the double, but the double is
the nearest one to it; and a whole number below `2 ^ 53` is in the text as it
is. Of two doubles the lesser one has the lesser number in its text, if they
do not have the same one.

Results:
* `positional_text`, `ofText?_scientificNotation`: the two layouts.
* `denotes_toText`, `isNearest_written`: what the plain notation denotes.
* `written_of_isInteger`, `written_toBinary64`: whole numbers and up to fifteen
  digits are written as they are.
* `written_mono`: the plain notation keeps the order.
-/
namespace ContestGrading

/-- The number that the plain notation of a finite double denotes. -/
def Binary64.written (x : Binary64) : ℚ := if x.isZero then 0 else x.shortest.value

namespace Decimal

open Binary64 (unitsPerOne)

variable {x y : Binary64}

/-! ## The two layouts -/

/-- Digits with a point among them denote the number that they are without the
point, so many places further down. -/
theorem ofText?_pointed (negative : Bool) {whole fraction : List Nat}
    (hdigits : AreDigits (whole ++ fraction)) (hne : whole ≠ []) :
    ofText? (signText negative ++ (digitText whole ++ pointed fraction)) =
      some ⟨negative, ofDigits (whole ++ fraction), -fraction.length⟩ := by
  obtain ⟨hwhole, hfraction⟩ := List.forall_mem_append.mp hdigits
  have hread := ofText?_numeral negative hwhole hfraction hne ends_nil rfl
  rw [List.append_nil] at hread
  rw [hread, readExponent, zero_sub]

theorem zeros_eq (k : Nat) : zeros k = digitText (List.replicate k 0) := by
  rw [digitText, List.map_replicate]
  rfl

theorem areDigits_replicate (k : Nat) : AreDigits (List.replicate k 0) := by
  intro d hd
  rw [List.eq_of_mem_replicate hd]
  decide

/-- With the point in front of, behind or among them, digits denote their
number at the place where the point puts them. -/
theorem ofText?_positional (negative : Bool) {ds : List Nat} (hds : AreDigits ds) (hne : ds ≠ [])
    (k : ℤ) :
    ∃ d, ofText? (signText negative ++ positional (digitText ds) (k + ds.length)) = some d ∧
      d.negative = negative ∧ d.size = ofDigits ds * 10 ^ k := by
  have hlength := List.length_pos_iff.mpr hne
  unfold positional
  rw [length_digitText]
  split_ifs with hfront hbehind
  · -- zeros stand between the point and the digits
    have hfraction : List.replicate (k + ds.length).natAbs 0 ++ ds ≠ [] :=
      List.append_ne_nil_of_right_ne_nil _ hne
    have htext : [48, 46] ++ zeros (k + ds.length).natAbs ++ digitText ds =
        digitText [0] ++ pointed (List.replicate (k + ds.length).natAbs 0 ++ ds) := by
      rw [pointed_of_ne_nil hfraction, digitText_append, zeros_eq]
      rfl
    have hdigits : AreDigits ([0] ++ (List.replicate (k + ds.length).natAbs 0 ++ ds)) :=
      List.forall_mem_append.mpr ⟨areDigits_replicate 1,
        List.forall_mem_append.mpr ⟨areDigits_replicate _, hds⟩⟩
    rw [htext]
    refine ⟨_, ofText?_pointed negative hdigits (by decide), rfl, ?_⟩
    have hplaces : -((List.replicate (k + ds.length).natAbs 0 ++ ds).length : ℤ) = k := by
      rw [List.length_append, List.length_replicate]
      omega
    rw [size, hplaces, ofDigits_append, ofDigits_append, ofDigits_replicate, ofDigits_singleton]
    simp
  · -- zeros stand behind the digits
    obtain ⟨j, rfl⟩ := Int.eq_ofNat_of_zero_le (by omega : 0 ≤ k)
    have htext : digitText ds ++ zeros ((j + ds.length : ℤ).natAbs - ds.length) =
        digitText (ds ++ List.replicate j 0) ++ pointed [] := by
      rw [digitText_append, zeros_eq, show (j + ds.length : ℤ).natAbs - ds.length = j by omega]
      exact (List.append_nil _).symm
    have hdigits : AreDigits (ds ++ List.replicate j 0 ++ []) := by
      rw [List.append_nil]
      exact List.forall_mem_append.mpr ⟨hds, areDigits_replicate j⟩
    rw [htext]
    refine ⟨_, ofText?_pointed negative hdigits (by simp [hne]), rfl, ?_⟩
    rw [size, List.append_nil, ofDigits_append, ofDigits_replicate, List.length_replicate]
    simp
  · obtain ⟨j, hj⟩ := Int.eq_ofNat_of_zero_le (by omega : 0 ≤ k + ds.length)
    have hdrop : ds.drop j ≠ [] := by
      rw [Ne, List.drop_eq_nil_iff]
      omega
    have htake : ds.take j ≠ [] := by
      rw [Ne, List.take_eq_nil_iff, or_iff_left hne]
      omega
    have htext : (digitText ds).take j ++ 46 :: (digitText ds).drop j =
        digitText (ds.take j) ++ pointed (ds.drop j) := by
      rw [pointed_of_ne_nil hdrop, digitText, digitText, digitText, List.map_take, List.map_drop]
    have hdigits : AreDigits (ds.take j ++ ds.drop j) := by
      rwa [List.take_append_drop]
    rw [hj, Int.natAbs_natCast, htext]
    refine ⟨_, ofText?_pointed negative hdigits htake, rfl, ?_⟩
    have hplaces : -((ds.drop j).length : ℤ) = k := by
      rw [List.length_drop]
      omega
    rw [size, hplaces, List.take_append_drop]

/-- A coefficient with its exponent is read back as it is. -/
theorem ofText?_scientificNotation (d : Decimal) (count width : Nat) :
    ofText? (d.scientificNotation count width) = some d := by
  have hdigits := areDigits_paddedDigits count d.coefficient
  have hvalue := ofDigits_paddedDigits count d.coefficient
  rw [scientificNotation, padZeros_natText, length_digitText]
  obtain ⟨first, ds, hds⟩ := List.exists_cons_of_ne_nil (paddedDigits_ne_nil count d.coefficient)
  rw [hds] at hdigits hvalue ⊢
  obtain ⟨hfirst, hrest⟩ := List.forall_mem_cons.mp hdigits
  have hread := readExponent_exponentText width (d.exponent + (first :: ds).length - 1)
  rw [pointAfterFirst_digitText, List.append_assoc, List.append_assoc,
    ofText?_numeral d.negative (by simpa [AreDigits] using hfirst) hrest (List.cons_ne_nil _ _)
      (ends_exponentText width _) (by rw [hread]), hread, List.singleton_append, hvalue]
  obtain ⟨negative, coefficient, exponent⟩ := d
  congr 2
  rw [List.length_cons]
  push_cast
  ring

/-! ## The plain notation -/

/-- The plain notation denotes the shortest decimal. -/
theorem denotes_toText (hx : x.isFinite = true) : Denotes x.toText x.written := by
  obtain ⟨s, u, hu, rfl⟩ := Binary64.exists_of_isFinite hx
  rw [Binary64.toText, Binary64.written]
  split
  · exact ⟨⟨false, 0, 0⟩, by decide, by simp [value, size]⟩
  rw [Binary64.finiteText]
  generalize (Binary64.finite s u hu).shortest = d
  split
  · have hdigits : AreDigits (digits d.coefficient) := fun _ hd => digit_lt hd
    obtain ⟨e, he, hsign, hsize⟩ := ofText?_positional d.negative hdigits
      (digits_ne_nil d.coefficient) d.exponent
    refine ⟨e, ?_, ?_⟩
    · rw [← he, natText, length_digitText]
    · rw [value, value, hsign, hsize, ofDigits_digits, size]
  · exact ⟨d, ofText?_scientificNotation d _ 1, rfl⟩

/-- The double is the nearest one to the number in its text. -/
theorem isNearest_written (hx : x.isFinite = true) : x.IsNearest x.written := by
  rcases Nat.eq_zero_or_pos x.units with h0 | hpos
  · have hmagnitude : Binary64.IsNearestMagnitude 0 x.units := by
      rw [h0]
      refine ⟨Binary64.representable_zero, fun v _ => ?_, fun _ _ _ _ => ⟨0, rfl⟩⟩
      rw [inOnes_zero, sub_zero, abs_zero]
      exact abs_nonneg _
    have hwritten : x.written = x.withSign 0 := by
      rw [Binary64.written, if_pos (isZero_of_units_eq_zero hx h0), Binary64.withSign, neg_zero,
        ite_self]
    rw [hwritten]
    exact (Binary64.isNearest_iff hx le_rfl).mpr hmagnitude
  · have hread := toBinary64_shortest hpos
    have hsign : x.shortest.negative = x.negative := by rw [← negative_toBinary64, hread]
    have hwritten : x.written = x.withSign x.shortest.size := by
      rw [Binary64.written, isZero_of_units_pos hpos, if_neg (by decide), value, hsign,
        Binary64.withSign]
    have hmagnitude := isNearestMagnitude_toBinary64 (d := x.shortest) (by rwa [hread])
    rw [hread] at hmagnitude
    rw [hwritten]
    exact (Binary64.isNearest_iff hx (size_nonneg _)).mpr hmagnitude

/-! ## Whole numbers -/

/-- Below `2 ^ 53` whole numbers are written as they are. -/
theorem written_of_isInteger (hx : x.isInteger = true) (h : |x.value| < 2 ^ 53) :
    x.written = x.value := by
  cases x with
  | nan => cases hx
  | infinite s => cases hx
  | finite s u hu =>
    obtain ⟨n, rfl⟩ : ∃ n, u = n * unitsPerOne :=
      Nat.dvd_of_mod_eq_zero (beq_iff_eq.mp hx) |>.imp fun n hn => by rw [hn, Nat.mul_comm]
    have hvalue : (Binary64.finite s (n * unitsPerOne) hu).value = if s then -(n : ℚ) else n := by
      rw [value_eq_inOnes rfl]
      show (if s then -inOnes (n * unitsPerOne) else inOnes (n * unitsPerOne)) = _
      rw [inOnes_mul_unitsPerOne]
    have hn : n < 2 ^ 53 := by
      rw [Binary64.abs_value] at h
      replace h : inOnes (n * unitsPerOne) < 2 ^ 53 := h
      rw [inOnes_mul_unitsPerOne] at h
      exact_mod_cast h
    rw [Binary64.written, hvalue]
    rcases Nat.eq_zero_or_pos n with rfl | hpos
    · simp [Binary64.isZero]
    · have hunits : 0 < (Binary64.whole s n hn).units :=
        Nat.mul_pos hpos Binary64.unitsPerOne_pos
      obtain ⟨coefficient, k, hcoefficient, hshortest⟩ := Binary64.shortest_whole s hn hpos
      show (if (Binary64.whole s n hn).isZero = true then 0
        else (Binary64.whole s n hn).shortest.value) = _
      rw [isZero_of_units_pos hunits, if_neg (by decide), hshortest, value, size, ← hcoefficient]
      push_cast
      rfl

/-! ## Decimals of a few digits -/

/-- Up to fifteen digits are written as they are, unless they are among the
smallest magnitudes. -/
theorem written_toBinary64 {d : Decimal} (h : 2 ^ 53 ≤ d.toBinary64.units)
    (hc : d.coefficient < 10 ^ 15) : d.toBinary64.written = d.value := by
  have hpos : 0 < d.toBinary64.units := Nat.lt_of_lt_of_le (Nat.two_pow_pos 53) h
  have hsign : d.toBinary64.shortest.negative = d.negative := by
    rw [← negative_toBinary64, toBinary64_shortest hpos, negative_toBinary64]
  rw [Binary64.written, isZero_of_units_pos hpos, if_neg (by decide), value, value, hsign,
    size_shortest_of_digits h rfl hc]

/-! ## Order -/

/-- Only the zeros are two doubles of one value. -/
theorem eq_or_isZero_of_value_eq (hx : x.isFinite = true) (hy : y.isFinite = true)
    (h : x.value = y.value) : x = y ∨ x.isZero = true ∧ y.isZero = true := by
  have hunits : x.units = y.units := by
    refine inOnes_injective ?_
    rw [← Binary64.abs_value, ← Binary64.abs_value, h]
  obtain ⟨s, u, hu, rfl⟩ := Binary64.exists_of_isFinite hx
  obtain ⟨t, v, hv, rfl⟩ := Binary64.exists_of_isFinite hy
  obtain rfl : u = v := hunits
  rcases Nat.eq_zero_or_pos u with rfl | hpos
  · exact .inr ⟨rfl, rfl⟩
  · have hsize : 0 < inOnes u := inOnes_zero ▸ inOnes_lt_inOnes.mpr hpos
    rw [value_eq_inOnes hx, value_eq_inOnes hy] at h
    refine .inl ?_
    cases s <;> cases t <;> simp [Binary64.negative, Binary64.units] at h ⊢ <;> linarith

/-- The plain notation keeps the order. -/
theorem written_mono (hx : x.isFinite = true) (hy : y.isFinite = true) (h : x.value ≤ y.value) :
    x.written ≤ y.written := by
  rcases h.eq_or_lt with h | h
  · rcases eq_or_isZero_of_value_eq hx hy h with rfl | ⟨hx0, hy0⟩
    · exact le_rfl
    · rw [Binary64.written, if_pos hx0, Binary64.written, if_pos hy0]
  · -- the middle of the two doubles is between the numbers
    have hlow := (isNearest_written hx).nearest y hy
    have hhigh := (isNearest_written hy).nearest x hx
    have hx' : x.written ≤ (x.value + y.value) / 2 := by
      by_contra hgt
      rw [abs_of_nonneg (by linarith : 0 ≤ x.written - x.value)] at hlow
      rcases abs_cases (x.written - y.value) with ⟨e, -⟩ | ⟨e, -⟩ <;> linarith
    have hy' : (x.value + y.value) / 2 ≤ y.written := by
      by_contra hlt
      rw [abs_of_nonpos (by linarith : y.written - y.value ≤ 0)] at hhigh
      rcases abs_cases (y.written - x.value) with ⟨e, -⟩ | ⟨e, -⟩ <;> linarith
    exact hx'.trans hy'

end Decimal

end ContestGrading
